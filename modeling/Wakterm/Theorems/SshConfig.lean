import Mathlib.Data.Fintype.Card
import Mathlib.Data.Set.Finite.List
import Mathlib.Logic.Relation
import Wakterm.Machine.Loop
import Wakterm.Ssh.Config

/-!
# Which hosts a list of patterns is for

A host is meant by a list if a pattern of it matches and none of the negated ones does, in whatever
order they stand.
-/

namespace Wakterm.Theorems.SshConfig

open Wakterm.Ssh
open Wakterm.Agent (isWhitespace)

/-- A word of the list, with its `!` taken off. -/
structure Glob where
  text : List Char
  negated : Bool

/-- What is made of it. -/
def Glob.pattern (g : Glob) : Pattern := .new g.text g.negated

/-- The text is what the glob describes: `*` is any string and `?` any single character, of those
that a wildcard takes. -/
inductive Matches (takes : Char → Prop) : List Char → List Char → Prop
  | done : Matches takes [] []
  | skip {glob text : List Char} (h : Matches takes glob text) : Matches takes ('*' :: glob) text
  | take {c : Char} {glob text : List Char} (hc : takes c) (h : Matches takes ('*' :: glob) text) :
      Matches takes ('*' :: glob) (c :: text)
  | one {c : Char} {glob text : List Char} (hc : takes c) (h : Matches takes glob text) :
      Matches takes ('?' :: glob) (c :: text)
  | literal {c : Char} {glob text : List Char} (hstar : c ≠ '*') (hone : c ≠ '?')
      (h : Matches takes glob text) : Matches takes (c :: glob) (c :: text)

/-- The glob matches, and its wildcards take every character. -/
def Glob.Fits (g : Glob) (hostname : List Char) : Prop :=
  Matches (fun _ => True) g.text hostname

/-- The host is one that the list means. -/
def Meant (hostname : List Char) (globs : List Glob) : Prop :=
  (∃ g ∈ globs, g.negated = false ∧ g.Fits hostname) ∧
    ∀ g ∈ globs, g.negated = true → ¬g.Fits hostname

def firstMatch (hostname : List Char) (globs : List Glob) : Option Glob :=
  globs.find? fun g => g.pattern.matchText hostname

/-- The first glob that matches is negated, or no negated one matches; and no wildcard would have
to take a newline. -/
structure Decides (hostname : List Char) (globs : List Glob) : Prop where
  first : ∀ g, firstMatch hostname globs = some g → g.negated = false →
    ∀ g' ∈ globs, g'.negated = true → ¬g'.Fits hostname
  newline : firstMatch hostname globs = none → '\n' ∈ hostname → ¬Meant hostname globs

/-! ## The regex of a glob -/

section Globs

variable {takes takes' : Char → Prop} {glob text hostname : List Char}

theorem Matches.mono (h : Matches takes glob text) (hsub : ∀ c ∈ text, takes c → takes' c) :
    Matches takes' glob text := by
  induction h with
  | done => exact .done
  | skip _ ih => exact .skip (ih hsub)
  | take hc _ ih =>
    exact .take (hsub _ (by simp) hc) (ih fun d hd => hsub d (List.mem_cons_of_mem _ hd))
  | one hc _ ih =>
    exact .one (hsub _ (by simp) hc) (ih fun d hd => hsub d (List.mem_cons_of_mem _ hd))
  | literal hstar hone _ ih =>
    exact .literal hstar hone (ih fun d hd => hsub d (List.mem_cons_of_mem _ hd))

theorem any_afterDots {p : List Char → Bool} (hp : ∀ t, p t = true ↔ Matches (· ≠ '\n') glob t) :
    (afterDots text).any p = true ↔ Matches (· ≠ '\n') ('*' :: glob) text := by
  induction text with
  | nil =>
    rw [afterDots, List.any_cons, List.any_nil, Bool.or_false, hp]
    constructor
    · exact .skip
    · intro h
      cases h with
      | skip h => exact h
  | cons c text ih =>
    rw [afterDots, List.any_cons, Bool.or_eq_true, hp]
    constructor
    · rintro (h | h)
      · exact .skip h
      · by_cases hc : c = '\n'
        · rw [if_pos hc] at h
          cases h
        · rw [if_neg hc] at h
          exact .take hc (ih.mp h)
    · intro h
      cases h with
      | skip h => exact .inl h
      | take hc h =>
        rw [if_neg hc]
        exact .inr (ih.mpr h)
      | literal hstar _ _ => exact absurd rfl hstar

/-- The regex matches what the glob does, but for the newlines that a wildcard would take. The
induction is on the glob, and for a `*` on the text. -/
theorem isMatch_iff (glob : List Char) : ∀ text,
    isMatch (glob.map pieceOf) text = true ↔ Matches (· ≠ '\n') glob text := by
  induction glob with
  | nil =>
    intro text
    cases text with
    | nil => exact iff_of_true rfl .done
    | cons c text => exact iff_of_false (by simp [isMatch]) (by rintro ⟨⟩)
  | cons p glob ih =>
    intro text
    rw [List.map_cons, pieceOf]
    by_cases hstar : p = '*'
    · rw [if_pos hstar, hstar]
      exact any_afterDots ih
    rw [if_neg hstar]
    by_cases hone : p = '?'
    · rw [if_pos hone, hone]
      cases text with
      | nil => exact iff_of_false (by simp [isMatch]) (by rintro ⟨⟩)
      | cons c text =>
        show (decide (c ≠ '\n') && isMatch _ text) = true ↔ _
        rw [Bool.and_eq_true, decide_eq_true_iff, ih]
        constructor
        · exact fun h => .one h.1 h.2
        · intro h
          cases h with
          | one hc h => exact ⟨hc, h⟩
          | literal _ hone _ => exact absurd rfl hone
    · rw [if_neg hone]
      cases text with
      | nil =>
        refine iff_of_false (by simp [isMatch]) fun h => ?_
        cases h with
        | skip h => exact hstar rfl
      | cons c text =>
        show (decide (p = c) && isMatch _ text) = true ↔ _
        rw [Bool.and_eq_true, decide_eq_true_iff, ih]
        constructor
        · rintro ⟨rfl, h⟩
          exact .literal hstar hone h
        · intro h
          cases h with
          | skip h => exact absurd rfl hstar
          | take _ h => exact absurd rfl hstar
          | one _ h => exact absurd rfl hone
          | literal _ _ h => exact ⟨rfl, h⟩

theorem matchText_fits {g : Glob} (h : g.pattern.matchText hostname = true) : g.Fits hostname :=
  ((isMatch_iff g.text hostname).mp h).mono fun _ _ _ => trivial

theorem fits_matchText {g : Glob} (hline : '\n' ∉ hostname) (h : g.Fits hostname) :
    g.pattern.matchText hostname = true :=
  (isMatch_iff g.text hostname).mpr (h.mono fun _ hc _ hnewline => hline (hnewline ▸ hc))

/-! ## The first pattern that matches -/

theorem matchGroup_eq (hostname : List Char) (globs : List Glob) :
    Pattern.matchGroup hostname (globs.map Glob.pattern) =
      ((firstMatch hostname globs).map fun g => !g.negated).getD false := by
  induction globs with
  | nil => rfl
  | cons g globs ih =>
    rw [List.map_cons, Pattern.matchGroup, firstMatch, List.find?_cons]
    by_cases h : g.pattern.matchText hostname = true
    · simp only [h, if_true]
      rfl
    · rw [if_neg h, ih]
      simp only [h]
      rfl

/-- **A host is matched by the list exactly if it is meant by it**, if and only if no negated glob
matches behind a first one that is not negated, and no wildcard would have to take a newline. -/
theorem match_group_iff (hostname : List Char) (globs : List Glob) :
    (Pattern.matchGroup hostname (globs.map Glob.pattern) = true ↔ Meant hostname globs) ↔
      Decides hostname globs := by
  rw [matchGroup_eq]
  cases hfirst : firstMatch hostname globs with
  | none =>
    show (false = true ↔ _) ↔ _
    constructor
    · intro h
      exact ⟨fun g hg => absurd (hfirst.symm.trans hg) (by simp), fun _ _ hmeant =>
        Bool.false_ne_true (h.mpr hmeant)⟩
    · intro h
      refine iff_of_false Bool.false_ne_true fun hmeant => ?_
      by_cases hline : '\n' ∈ hostname
      · exact h.newline hfirst hline hmeant
      · obtain ⟨⟨g, hg, -, hfits⟩, -⟩ := hmeant
        exact List.find?_eq_none.mp hfirst g hg (fits_matchText hline hfits)
  | some g =>
    have hg : g ∈ globs := List.mem_of_find?_eq_some hfirst
    have hmatch : g.pattern.matchText hostname = true := by
      simpa using List.find?_some hfirst
    have hfits : g.Fits hostname := matchText_fits hmatch
    show ((!g.negated) = true ↔ _) ↔ _
    cases hneg : g.negated with
    | true =>
      refine iff_of_true (iff_of_false (by simp) fun hmeant => hmeant.2 g hg hneg hfits) ?_
      refine ⟨fun g' hg' hneg' => ?_, fun hnone => absurd (hfirst.symm.trans hnone) (by simp)⟩
      cases hfirst.symm.trans hg'
      exact absurd (hneg.symm.trans hneg') (by simp)
    | false =>
      constructor
      · intro h
        refine ⟨fun g' _ _ => (h.mp rfl).2, fun hnone => ?_⟩
        exact absurd (hfirst.symm.trans hnone) (by simp)
      · intro h
        exact iff_of_true rfl ⟨⟨g, hg, hneg, hfits⟩, h.first g hfirst hneg⟩

/-- `Match host *,!bad` is for the host `bad`. -/
theorem negated_behind_match : ¬(Pattern.matchGroup ['b', 'a', 'd']
        (parsePatternList ['*', ',', '!', 'b', 'a', 'd']) = true ↔
      Meant ['b', 'a', 'd'] [⟨['*'], false⟩, ⟨['b', 'a', 'd'], true⟩]) := by
  intro h
  refine (h.mp (by decide)).2 ⟨['b', 'a', 'd'], true⟩ (by simp) rfl ?_
  show Matches _ ['b', 'a', 'd'] ['b', 'a', 'd']
  repeat refine .literal (by decide) (by decide) ?_
  exact .done

end Globs

/-! ## Reading comes to an end -/

section Reading

variable {ε α β : Type} {f : α → Except ε (List β)} {l l' : List α} {x y z : List β}

theorem flatMapM_cons_eq {a : α} :
    flatMapM f (a :: l) = .ok z ↔ ∃ x y, f a = .ok x ∧ flatMapM f l = .ok y ∧ z = x ++ y := by
  rw [flatMapM]
  cases f a with
  | error e => simp [Except.bind]
  | ok x =>
    cases flatMapM f l with
    | error e => simp [Except.bind, Except.map]
    | ok y => simp [Except.bind, Except.map, eq_comm]

theorem flatMapM_append_eq : flatMapM f (l ++ l') = .ok z ↔
      ∃ x y, flatMapM f l = .ok x ∧ flatMapM f l' = .ok y ∧ z = x ++ y := by
  induction l generalizing z with
  | nil => simp [flatMapM]
  | cons a l ih =>
    rw [List.cons_append, flatMapM_cons_eq]
    constructor
    · rintro ⟨x, y, hx, hy, rfl⟩
      obtain ⟨y1, y2, hy1, hy2, rfl⟩ := ih.mp hy
      exact ⟨x ++ y1, y2, flatMapM_cons_eq.mpr ⟨x, y1, hx, hy1, rfl⟩, hy2, by simp⟩
    · rintro ⟨x, y, hx, hy, rfl⟩
      obtain ⟨x1, x2, hx1, hx2, rfl⟩ := flatMapM_cons_eq.mp hx
      exact ⟨x1, x2 ++ y, hx1, ih.mpr ⟨x2, y, hx2, hy, rfl⟩, by simp⟩

theorem flatMapM_ok_iff : (∃ z, flatMapM f l = .ok z) ↔ ∀ a ∈ l, ∃ x, f a = .ok x := by
  induction l with
  | nil => simp [flatMapM]
  | cons a l ih =>
    rw [List.forall_mem_cons, ← ih]
    constructor
    · rintro ⟨z, hz⟩
      obtain ⟨x, y, hx, hy, -⟩ := flatMapM_cons_eq.mp hz
      exact ⟨⟨x, hx⟩, ⟨y, hy⟩⟩
    · rintro ⟨⟨x, hx⟩, ⟨y, hy⟩⟩
      exact ⟨x ++ y, flatMapM_cons_eq.mpr ⟨x, y, hx, hy, rfl⟩⟩

end Reading

variable {Path : Type} [DecidableEq Path] {env : ConfigEnv Path} {s data line : List Char}

/-- The slices of the line are at boundaries: it is empty or a comment, or what ends its keyword is
a character of one byte, and the value behind it is not one quote by itself. -/
def SoundLine (line : List Char) : Prop :=
  trim line = [] ∨ (trim line).head? = some '#' ∨
    ∀ sep v, (trim line).dropWhile (fun c => !isSeparator c) = sep :: v →
      sep.utf8Size = 1 ∧ trim v ≠ ['"']

/-- The line includes a file with these data. -/
def IncludedBy (env : ConfigEnv Path) (line data : List Char) : Prop :=
  ∃ v, readPair env.toLowercase line = .ok (some ("include".toList, v)) ∧
    ∃ path ∈ env.walk v, env.files.lookup path = some data

/-- A line of the text includes a file with these data. -/
def Includes (env : ConfigEnv Path) (s data : List Char) : Prop :=
  ∃ line ∈ ConfigEnv.lines s, IncludedBy env line data

/-- Every line of the text and of what it includes can be sliced, and no text that is reached
includes itself, directly or through others. -/
structure Readable (env : ConfigEnv Path) (s : List Char) : Prop where
  lines : ∀ data, Relation.ReflTransGen (Includes env) s data →
    ∀ line ∈ ConfigEnv.lines data, SoundLine line
  acyclic : ∀ data, Relation.ReflTransGen (Includes env) s data →
    ¬Relation.TransGen (Includes env) data data

theorem unquote_ok_iff (v : List Char) : (∃ w, unquote v = .ok w) ↔ v ≠ ['"'] := by
  rw [unquote]
  by_cases hquoted : v.head? = some '"' ∧ v.getLast? = some '"'
  · rw [if_pos hquoted]
    by_cases hshort : v.length < 2
    · rw [if_pos hshort]
      refine iff_of_false (by simp) fun hne => ?_
      obtain ⟨c, rfl⟩ : ∃ c, v = [c] := by
        refine List.length_eq_one_iff.mp ?_
        have hsome : v ≠ [] := by
          rintro rfl
          cases hquoted.1
        have hpos := List.length_pos_of_ne_nil hsome
        omega
      exact hne (by simpa using hquoted.1)
    · rw [if_neg hshort]
      refine iff_of_true ⟨_, rfl⟩ ?_
      rintro rfl
      exact hshort (by decide)
  · rw [if_neg hquoted]
    refine iff_of_true ⟨_, rfl⟩ ?_
    rintro rfl
    exact hquoted ⟨rfl, rfl⟩

theorem readPair_ok_iff (lower : List Char → List Char) (line : List Char) :
    (∃ pair, readPair lower line = .ok pair) ↔ SoundLine line := by
  unfold readPair SoundLine
  dsimp only
  by_cases hskip : trim line = [] ∨ (trim line).head? = some '#'
  · rw [if_pos hskip, ← or_assoc]
    exact iff_of_true ⟨_, rfl⟩ (.inl hskip)
  rw [if_neg hskip, ← or_assoc, or_iff_right hskip]
  cases hsep : (trim line).dropWhile fun c => !isSeparator c with
  | nil => exact iff_of_true ⟨_, rfl⟩ (by simp)
  | cons sep v =>
    have hone : ¬1 < sep.utf8Size ↔ sep.utf8Size = 1 := by
      have := sep.utf8Size_pos
      omega
    have hall : (∀ sep' v', sep :: v = sep' :: v' → sep'.utf8Size = 1 ∧ trim v' ≠ ['"']) ↔
        sep.utf8Size = 1 ∧ ∃ w, unquote (trim v) = .ok w := by
      rw [unquote_ok_iff]
      constructor
      · exact fun h => h sep v rfl
      · rintro h _ _ ⟨⟩
        exact h
    rw [hall]
    show (∃ pair, (if 1 < sep.utf8Size then _ else _) = Except.ok pair) ↔ _
    by_cases hwide : 1 < sep.utf8Size
    · rw [if_pos hwide]
      exact iff_of_false (by simp) fun h => hone.mpr h.1 hwide
    · rw [if_neg hwide]
      cases unquote (trim v) with
      | error e => simp [Except.map]
      | ok w => exact iff_of_true ⟨_, rfl⟩ ⟨hone.mp hwide, w, rfl⟩

theorem readLine_ok_iff {parse : List Char → Except Stop (List (Item Path))} :
    (∃ items, env.readLine parse line = .ok items) ↔
      SoundLine line ∧ ∀ v, readPair env.toLowercase line = .ok (some ("include".toList, v)) →
        ∀ path ∈ env.walk v, ∀ data, env.files.lookup path = some data →
          ∃ items, parse data = .ok items := by
  rw [← readPair_ok_iff env.toLowercase, ConfigEnv.readLine]
  cases hpair : readPair env.toLowercase line with
  | error e => simp [Except.bind]
  | ok pair =>
    refine Iff.trans ?_ (and_iff_right ⟨pair, rfl⟩).symm
    cases pair with
    | none => exact iff_of_true ⟨[], rfl⟩ fun v hv => by simp at hv
    | some pair =>
      obtain ⟨k, v⟩ := pair
      show (∃ items, (if k = "include".toList then _ else _) = Except.ok items) ↔ _
      by_cases hinclude : k = "include".toList
      · rw [if_pos hinclude, ConfigEnv.doInclude, flatMapM_ok_iff]
        subst hinclude
        constructor
        · intro h v' hv' path hpath data hdata
          obtain rfl : v = v' := congrArg Prod.snd (Option.some.inj (Except.ok.inj hv'))
          obtain ⟨items, hitems⟩ := h path hpath
          simp only [hdata] at hitems
          cases hparse : parse data with
          | error e => simp [hparse, Except.map] at hitems
          | ok items => exact ⟨items, rfl⟩
        · intro h path hpath
          cases hdata : env.files.lookup path with
          | none => exact ⟨[], rfl⟩
          | some data =>
            obtain ⟨items, hitems⟩ := h v rfl path hpath data hdata
            exact ⟨.loaded path :: items, by simp [hitems, Except.map]⟩
      · rw [if_neg hinclude]
        refine iff_of_true ?_ fun v' hv' => ?_
        · split
          · exact ⟨_, rfl⟩
          · split
            · exact ⟨_, rfl⟩
            · exact ⟨_, rfl⟩
        · exact absurd (congrArg Prod.fst (Option.some.inj (Except.ok.inj hv'))) hinclude

/-- A text is read if its lines can be sliced and what it includes is read. -/
inductive Sound (env : ConfigEnv Path) : List Char → Prop
  | intro (s : List Char) (hlines : ∀ line ∈ ConfigEnv.lines s, SoundLine line)
      (hincluded : ∀ data, Includes env s data → Sound env data) : Sound env s

theorem parseImpl_succ_ok_iff {depth : Nat} : (∃ items, env.parseImpl (depth + 1) s = .ok items) ↔
      (∀ line ∈ ConfigEnv.lines s, SoundLine line) ∧
        ∀ data, Includes env s data → ∃ items, env.parseImpl depth data = .ok items := by
  rw [ConfigEnv.parseImpl, flatMapM_ok_iff]
  constructor
  · intro h
    refine ⟨fun line hline => (readLine_ok_iff.mp (h line hline)).1, ?_⟩
    rintro data ⟨line, hline, v, hv, path, hpath, hdata⟩
    exact (readLine_ok_iff.mp (h line hline)).2 v hv path hpath data hdata
  · intro h line hline
    refine readLine_ok_iff.mpr ⟨h.1 line hline, fun v hv path hpath data hdata => ?_⟩
    exact h.2 data ⟨line, hline, v, hv, path, hpath, hdata⟩

theorem sound_of_parseImpl (depth : Nat) :
    ∀ s, (∃ items, env.parseImpl depth s = .ok items) → Sound env s := by
  induction depth with
  | zero => simp [ConfigEnv.parseImpl]
  | succ depth ih =>
    intro s h
    obtain ⟨hlines, hincluded⟩ := parseImpl_succ_ok_iff.mp h
    exact .intro s hlines fun data hdata => ih data (hincluded data hdata)

theorem parseImpl_mono {depth depth' : Nat} (hle : depth ≤ depth') :
    ∀ s, (∃ items, env.parseImpl depth s = .ok items) →
      ∃ items, env.parseImpl depth' s = .ok items := by
  induction depth generalizing depth' with
  | zero => simp [ConfigEnv.parseImpl]
  | succ depth ih =>
    intro s h
    obtain ⟨depth', rfl⟩ : ∃ d, depth' = d + 1 := ⟨depth' - 1, by omega⟩
    obtain ⟨hlines, hincluded⟩ := parseImpl_succ_ok_iff.mp h
    refine parseImpl_succ_ok_iff.mpr ⟨hlines, fun data hdata => ?_⟩
    exact ih (Nat.le_of_succ_le_succ hle) data (hincluded data hdata)

theorem includes_mem (h : Includes env s data) : data ∈ env.files.map Prod.snd := by
  obtain ⟨_, _, _, _, path, _, hdata⟩ := h
  obtain ⟨before, after, hfiles, -⟩ := List.lookup_eq_some_iff.mp hdata
  exact List.mem_map.mpr ⟨(path, data), by simp [hfiles], rfl⟩

/-- One depth is enough for all the files that a text includes, as there are finitely many. -/
theorem Sound.parses (h : Sound env s) : ∃ depth items, env.parseImpl depth s = .ok items := by
  induction h with
  | intro s hlines _ ih =>
    have hall : ∀ l : List (List Char), ∃ depth, ∀ data ∈ l, Includes env s data →
        ∃ items, env.parseImpl depth data = .ok items := by
      intro l
      induction l with
      | nil => exact ⟨0, by simp⟩
      | cons data l hl =>
        obtain ⟨depth, hdepth⟩ := hl
        by_cases hdata : Includes env s data
        · obtain ⟨depth', hdepth'⟩ := ih data hdata
          refine ⟨max depth depth', fun other hother hincl => ?_⟩
          rcases List.mem_cons.mp hother with rfl | hother
          · exact parseImpl_mono (Nat.le_max_right _ _) _ hdepth'
          · exact parseImpl_mono (Nat.le_max_left _ _) _ (hdepth other hother hincl)
        · refine ⟨depth, fun other hother hincl => ?_⟩
          rcases List.mem_cons.mp hother with rfl | hother
          · exact absurd hincl hdata
          · exact hdepth other hother hincl
    obtain ⟨depth, hdepth⟩ := hall (env.files.map Prod.snd)
    exact ⟨depth + 1, parseImpl_succ_ok_iff.mpr
      ⟨hlines, fun data hdata => hdepth data (includes_mem hdata) hdata⟩⟩

theorem Sound.readable (h : Sound env s) : Readable env s := by
  induction h with
  | intro s hlines hincluded ih =>
    constructor
    · intro data hdata
      rcases Relation.ReflTransGen.cases_head hdata with rfl | ⟨first, hfirst, hrest⟩
      · exact hlines
      · exact (ih first hfirst).lines data hrest
    · intro data hdata hcycle
      rcases Relation.ReflTransGen.cases_head hdata with rfl | ⟨first, hfirst, hrest⟩
      · obtain ⟨first, hfirst, hrest⟩ := Relation.TransGen.head'_iff.mp hcycle
        exact (ih first hfirst).acyclic first .refl (.tail' hrest hfirst)
      · exact (ih first hfirst).acyclic data hrest hcycle

/-- The texts that are reached are finitely many, so a relation without a cycle on them is
well-founded. -/
theorem Readable.sound (h : Readable env s) : Sound env s := by
  let Reached := { data : List Char // Relation.ReflTransGen (Includes env) s data }
  have hfinite : Finite Reached := by
    refine Set.Finite.subset (List.finite_toSet (s :: env.files.map Prod.snd)) fun data hdata => ?_
    rcases Relation.ReflTransGen.cases_tail hdata with rfl | ⟨_, _, hlast⟩
    · exact List.mem_cons_self
    · exact List.mem_cons_of_mem _ (includes_mem hlast)
  let Below : Reached → Reached → Prop := fun a b => Relation.TransGen (Includes env) b.1 a.1
  have htrans : IsTrans Reached Below := ⟨fun _ _ _ hab hbc => hbc.trans hab⟩
  have hirrefl : Std.Irrefl Below := ⟨fun a => h.acyclic a.1 a.2⟩
  have hwell : WellFounded Below := Finite.wellFounded_of_trans_of_irrefl Below
  have hall : ∀ a : Reached, Sound env a.1 := by
    intro a
    induction a using hwell.induction with
    | h a ih =>
      refine .intro a.1 (h.lines a.1 a.2) fun data hdata => ?_
      exact ih ⟨data, a.2.tail hdata⟩ (.single hdata)
  exact hall ⟨s, .refl⟩

/-- **A file is read to its end** if and only if each line of it and of what it includes has its
keyword end in a character of one byte and does not have one quote for a value, and the files do not
include one another in a circle. -/
theorem parse_total_iff (env : ConfigEnv Path) (s : List Char) (sourceFile : Option Path) :
    (∃ depth config, env.parse depth s sourceFile = .ok config) ↔ Readable env s := by
  constructor
  · rintro ⟨depth, config, hconfig⟩
    refine (sound_of_parseImpl depth s ?_).readable
    rw [ConfigEnv.parse] at hconfig
    cases hitems : env.parseImpl depth s with
    | error e =>
      rw [hitems] at hconfig
      cases hconfig
    | ok items => exact ⟨items, rfl⟩
  · intro h
    obtain ⟨depth, items, hitems⟩ := h.sound.parses
    exact ⟨depth, _, by rw [ConfigEnv.parse, hitems]; rfl⟩

/-- A value that is one quote stops the reader. -/
theorem lone_quote_panics :
    ¬∀ (env : ConfigEnv Nat) (s : List Char), ∃ depth config, env.parse depth s none = .ok config := by
  intro h
  obtain ⟨depth, config, hconfig⟩ := h ⟨id, fun _ => [], []⟩ ['a', ' ', '"']
  cases depth with
  | zero => cases hconfig
  | succ depth =>
    have hstop : ConfigEnv.parse ⟨id, fun _ => [], []⟩ (depth + 1) ['a', ' ', '"'] (none : Option Nat)
        = .error .sliceOrder := rfl
    cases hstop.symm.trans hconfig

/-! ## How an option is spelled -/

/-- A blank of ssh_config(5). -/
def IsBlank (c : Char) : Prop := c = ' ' ∨ c = '\t'

/-- What is between a keyword and its value: blanks, or blanks with one `=` among them. -/
structure Gap where
  before : List Char
  equals : Bool
  after : List Char
  blanks : ∀ c ∈ before ++ after, IsBlank c
  parts : equals = false → before ≠ []

def Gap.text (g : Gap) : List Char := g.before ++ ((if g.equals then ['='] else []) ++ g.after)

/-- A word that can be a keyword. -/
structure Keyword (k : List Char) : Prop where
  some : k ≠ []
  noComment : k.head? ≠ .some '#'
  word : ∀ c ∈ k, isSeparator c = false

/-- A value without blanks or quotes at its ends. -/
structure Value (v : List Char) : Prop where
  trimmed : trim v = v
  unquoted : v.head? ≠ .some '"' ∧ v.getLast? ≠ .some '"'

theorem IsBlank.white {c : Char} (h : IsBlank c) : isWhitespace c = true := by
  rcases h with rfl | rfl <;> decide

theorem IsBlank.separates {c : Char} (h : IsBlank c) : isSeparator c = true ∧ c.utf8Size = 1 := by
  rcases h with rfl | rfl <;> decide

section Trim

variable {blanks k v : List Char}

theorem trim_append (hblanks : ∀ c ∈ blanks, isWhitespace c = true) :
    trim (blanks ++ v) = trim v := by
  unfold trim
  rw [List.dropWhile_append_of_pos hblanks]

theorem trim_of_ends (hfirst : ∀ c ∈ v.head?, isWhitespace c = false)
    (hlast : ∀ c ∈ v.getLast?, isWhitespace c = false) : trim v = v := by
  have hstays : ∀ w : List Char, (∀ c ∈ w.head?, isWhitespace c = false) →
      w.dropWhile isWhitespace = w := by
    intro w hw
    cases w with
    | nil => rfl
    | cons c w => exact List.dropWhile_cons_of_neg (by simp [hw c rfl])
  unfold trim
  rw [hstays v hfirst, hstays v.reverse (by rwa [List.head?_reverse]), List.reverse_reverse]

theorem last_of_trim (h : trim v = v) : ∀ c ∈ v.getLast?, isWhitespace c = false := by
  intro c hc
  unfold trim at h
  rw [← h, List.getLast?_reverse] at hc
  have hnot := List.head?_dropWhile_not isWhitespace (v.dropWhile isWhitespace).reverse
  rw [hc] at hnot
  simpa using hnot

theorem Keyword.white (hk : Keyword k) : ∀ c ∈ k, isWhitespace c = false := by
  intro c hc
  have hno := hk.word c hc
  rw [isSeparator, Bool.or_eq_false_iff] at hno
  exact hno.2

theorem Keyword.trim_append (hk : Keyword k) (hlast : ∀ c ∈ v.getLast?, isWhitespace c = false) :
    trim (k ++ v) = k ++ v := by
  refine trim_of_ends (fun c hc => ?_) fun c hc => ?_
  · rw [List.head?_append_of_ne_nil _ hk.some] at hc
    exact hk.white c (List.mem_of_mem_head? hc)
  · cases hv : v with
    | nil =>
      rw [hv, List.append_nil] at hc
      exact hk.white c (List.mem_of_mem_getLast? hc)
    | cons d w =>
      rw [List.getLast?_append_of_ne_nil _ (by simp [hv])] at hc
      exact hlast c hc

theorem Keyword.trim_line (hk : Keyword k) (hlast : ∀ c ∈ v.getLast?, isWhitespace c = false)
    (hblanks : ∀ c ∈ blanks, isWhitespace c = true) : trim (k ++ v ++ blanks) = k ++ v := by
  have hfirst : (k ++ v ++ blanks).dropWhile isWhitespace = k ++ v ++ blanks := by
    cases k with
    | nil => exact absurd rfl hk.some
    | cons c k => exact List.dropWhile_cons_of_neg (by simp [hk.white c])
  have hsame := hk.trim_append hlast
  have hfirst' : (k ++ v).dropWhile isWhitespace = k ++ v := by
    cases k with
    | nil => exact absurd rfl hk.some
    | cons c k => exact List.dropWhile_cons_of_neg (by simp [hk.white c])
  unfold trim at hsame ⊢
  rw [hfirst, List.reverse_append, List.dropWhile_append_of_pos (by simpa using hblanks)]
  rwa [hfirst'] at hsame

end Trim

section Spelled

variable (lower : List Char → List Char) {k v line rest : List Char} {sep : Char}

theorem readPair_of_trim (hk : Keyword k) (hline : trim line = k ++ sep :: rest)
    (hsep : isSeparator sep = true) (hone : sep.utf8Size = 1) :
    readPair lower line = (unquote (trim rest)).map fun v => some (lower k, v) := by
  have hkeep : trim k = k := by simpa using hk.trim_append (v := []) (by simp)
  unfold readPair
  dsimp only
  rw [hline, if_neg, List.dropWhile_append_of_pos fun c hc => by simp [hk.word c hc],
    List.takeWhile_append_of_pos fun c hc => by simp [hk.word c hc],
    List.dropWhile_cons_of_neg (by simp [hsep]), List.takeWhile_cons_of_neg (by simp [hsep]),
    List.append_nil, hkeep]
  · show (if 1 < sep.utf8Size then _ else _) = _
    rw [if_neg (by omega)]
  · rintro (hnil | hcomment)
    · exact hk.some (List.append_eq_nil_iff.mp hnil).1
    · rw [List.head?_append_of_ne_nil _ hk.some] at hcomment
      exact hk.noComment hcomment

theorem readPair_word (hk : Keyword k) (hline : trim line = k) : readPair lower line = .ok none := by
  unfold readPair
  dsimp only
  rw [hline]
  split
  · rfl
  · rw [← List.append_nil k, List.dropWhile_append_of_pos fun c hc => by simp [hk.word c hc]]
    rfl

theorem unquote_of_head (h : v.head? ≠ some '"') : unquote v = .ok v := by
  rw [unquote, if_neg fun hquoted => h hquoted.1]

theorem readPair_equals (hk : Keyword k) (hv : Value v) {after : List Char}
    (hafter : ∀ c ∈ after, isWhitespace c = true) :
    readPair lower (k ++ '=' :: (after ++ v)) = .ok (some (lower k, v)) := by
  have hread : ∀ rest, trim (k ++ '=' :: (after ++ v)) = k ++ '=' :: rest → trim rest = v →
      readPair lower (k ++ '=' :: (after ++ v)) = .ok (some (lower k, v)) := by
    intro rest hline hrest
    rw [readPair_of_trim lower hk hline (by decide) (by decide), hrest,
      unquote_of_head hv.unquoted.1]
    rfl
  by_cases hnil : v = []
  · refine hread [] ?_ (hnil.symm ▸ rfl)
    have hline := hk.trim_line (v := ['=']) (by simp; decide) hafter
    simpa [hnil] using hline
  · refine hread (after ++ v) (hk.trim_append fun c hc => last_of_trim hv.trimmed c ?_)
      ((trim_append hafter).trans hv.trimmed)
    have hcons : '=' :: (after ++ v) = ('=' :: after) ++ v := rfl
    rwa [hcons, List.getLast?_append_of_ne_nil _ hnil] at hc

/-- With a blank before it, the equals sign begins the value. -/
theorem readPair_blank_equals (hk : Keyword k) (hv : Value v) {before after : List Char}
    (hbefore : ∀ c ∈ before, isWhitespace c = true) (hafter : ∀ c ∈ after, isWhitespace c = true)
    (hsep : isSeparator sep = true) (hone : sep.utf8Size = 1) :
    ∃ w, readPair lower (k ++ sep :: (before ++ '=' :: (after ++ v))) =
      .ok (some (lower k, '=' :: w)) ∧ v.length ≤ w.length := by
  have hread : ∀ w, trim (k ++ sep :: (before ++ '=' :: (after ++ v))) =
        k ++ sep :: (before ++ '=' :: w) →
      (∀ c ∈ ('=' :: w).getLast?, isWhitespace c = false) →
      readPair lower (k ++ sep :: (before ++ '=' :: (after ++ v))) =
        .ok (some (lower k, '=' :: w)) := by
    intro w hline hlast
    rw [readPair_of_trim lower hk hline hsep hone, trim_append hbefore,
      trim_of_ends (by simp; decide) hlast, unquote_of_head (by simp)]
    rfl
  by_cases hnil : v = []
  · refine ⟨[], hread [] ?_ (by simp; decide), by simp [hnil]⟩
    have hline := hk.trim_line (v := sep :: (before ++ ['=']))
      (by simp [List.getLast?_cons]; decide) hafter
    simpa [hnil] using hline
  · have hend : ∀ first : List Char, (first ++ v).getLast? = v.getLast? := fun first =>
      List.getLast?_append_of_ne_nil _ hnil
    refine ⟨after ++ v, hread _ (hk.trim_append fun c hc => ?_) fun c hc => ?_, by simp⟩
    · refine last_of_trim hv.trimmed c (hend (sep :: (before ++ '=' :: after)) ▸ ?_)
      simpa using hc
    · exact last_of_trim hv.trimmed c (hend ('=' :: after) ▸ hc)

/-- **An option is read the same however it is spaced**, as the pair of its keyword and its value
that is then entered where its line stands, if and only if no blank stands before its equals sign,
and an empty value has an equals sign. -/
theorem spelled_alike_iff (hk : Keyword k) (hv : Value v) (g : Gap) :
    (readPair lower (k ++ (g.text ++ v)) = .ok (some (lower k, v)) ∧
      ∀ {Path : Type} [DecidableEq Path] (env : ConfigEnv Path)
        (parse : List Char → Except Stop (List (Item Path))), env.toLowercase = lower →
        env.readLine parse (k ++ (g.text ++ v)) = env.readLine parse (k ++ '=' :: v)) ↔
      (g.equals = true → g.before = []) ∧ (v = [] → g.equals = true) := by
  have hscope : readPair lower (k ++ (g.text ++ v)) = .ok (some (lower k, v)) →
      ∀ {Path : Type} [DecidableEq Path] (env : ConfigEnv Path)
        (parse : List Char → Except Stop (List (Item Path))), env.toLowercase = lower →
        env.readLine parse (k ++ (g.text ++ v)) = env.readLine parse (k ++ '=' :: v) := by
    intro hread Path _ env parse hlower
    have hplain : readPair lower (k ++ '=' :: ([] ++ v)) = .ok (some (lower k, v)) :=
      readPair_equals lower hk hv (by simp)
    rw [ConfigEnv.readLine, ConfigEnv.readLine, hlower, hread]
    rw [List.nil_append] at hplain
    rw [hplain]
  refine Iff.trans (and_iff_left_of_imp hscope) ?_
  have hafter : ∀ c ∈ g.after, isWhitespace c = true := fun c hc =>
    (g.blanks c (List.mem_append_right _ hc)).white
  have hbefore : ∀ c ∈ g.before, IsBlank c := fun c hc =>
    g.blanks c (List.mem_append_left _ hc)
  have htext : g.text ++ v = g.before ++ ((if g.equals then ['='] else []) ++ (g.after ++ v)) := by
    simp [Gap.text]
  rw [htext]
  cases hequals : g.equals with
  | false =>
    rw [if_neg Bool.false_ne_true, List.nil_append]
    cases hfirst : g.before with
    | nil => exact absurd hfirst (g.parts hequals)
    | cons first more =>
      rw [hfirst, List.forall_mem_cons] at hbefore
      obtain ⟨hsep, hone⟩ := hbefore.1.separates
      have hmore : ∀ c ∈ more ++ g.after, isWhitespace c = true := by
        simpa [or_imp, forall_and] using ⟨fun c hc => (hbefore.2 c hc).white, hafter⟩
      by_cases hnil : v = []
      · refine iff_of_false ?_ (by simp [hnil])
        have hblanks : ∀ c ∈ first :: (more ++ g.after), isWhitespace c = true :=
          List.forall_mem_cons.mpr ⟨hbefore.1.white, hmore⟩
        have hline := hk.trim_line (v := []) (by simp) hblanks
        rw [hnil, List.append_nil, List.cons_append,
          readPair_word lower hk (by simpa using hline)]
        simp
      · refine iff_of_true ?_ (by simp [hnil])
        have hline : trim (k ++ first :: (more ++ (g.after ++ v))) =
            k ++ first :: (more ++ g.after ++ v) := by
          have hcons : first :: (more ++ (g.after ++ v)) = (first :: (more ++ g.after)) ++ v := by
            simp
          rw [hcons]
          refine hk.trim_append fun c hc => last_of_trim hv.trimmed c ?_
          rwa [List.getLast?_append_of_ne_nil _ hnil] at hc
        rw [List.cons_append, readPair_of_trim lower hk hline hsep hone, trim_append hmore,
          hv.trimmed, unquote_of_head hv.unquoted.1]
        rfl
  | true =>
    rw [if_pos rfl]
    cases hfirst : g.before with
    | nil => exact iff_of_true (readPair_equals lower hk hv hafter) (by simp)
    | cons first more =>
      refine iff_of_false ?_ (by simp)
      rw [hfirst, List.forall_mem_cons] at hbefore
      obtain ⟨hsep, hone⟩ := hbefore.1.separates
      obtain ⟨w, hread, hlength⟩ := readPair_blank_equals lower hk hv
        (fun c hc => (hbefore.2 c hc).white) hafter hsep hone
      intro hsame
      have hvalue := congrArg (fun r => r.toOption.join.map Prod.snd) (hread.symm.trans hsame)
      have hlonger := congrArg List.length (Option.some.inj hvalue)
      exact absurd hlonger (by simp; omega)

end Spelled

/-- `port= 22` is read as `port 22`. -/
theorem spelled_alike_port : readPair id (['p', 'o', 'r', 't'] ++ (['=', ' '] ++ ['2', '2'])) =
      .ok (some (['p', 'o', 'r', 't'], ['2', '2'])) := by
  have hk : Keyword ['p', 'o', 'r', 't'] := by
    refine ⟨by decide, by decide, fun c hc => ?_⟩
    simp only [List.mem_cons, List.not_mem_nil, or_false] at hc
    rcases hc with rfl | rfl | rfl | rfl <;> decide
  exact ((spelled_alike_iff id hk (v := ['2', '2']) ⟨by decide, by decide⟩
    ⟨[], true, [' '], by simp [IsBlank], by simp⟩).mpr ⟨fun _ => rfl, fun h => by cases h⟩).1

/-- `port = 22` sets the port to `= 22`. -/
theorem blank_before_equals :
    readPair id (['p', 'o', 'r', 't'] ++ ([' ', '=', ' '] ++ ['2', '2'])) ≠
      readPair id (['p', 'o', 'r', 't'] ++ ([' '] ++ ['2', '2'])) := by
  decide

/-! ## The scope of an option -/

/-- The line has a keyword of this kind. -/
def HasKeyword (env : ConfigEnv Path) (kind : List Char → Prop) (line : List Char) : Prop :=
  ∃ k v, readPair env.toLowercase line = .ok (some (k, v)) ∧ kind k

/-- The keywords that begin a block. -/
def IsBlock (k : List Char) : Prop := k = "host".toList ∨ k = "match".toList

theorem include_not_block : ¬IsBlock "include".toList := by
  unfold IsBlock
  decide

/-- The text has a `Host` or a `Match` line, or includes a text that has one. -/
inductive Opens (env : ConfigEnv Path) : List Char → Prop
  | block {s line : List Char} (hline : line ∈ ConfigEnv.lines s)
      (h : HasKeyword env IsBlock line) : Opens env s
  | included {s data : List Char} (hdata : Includes env s data) (h : Opens env data) : Opens env s

/-- An `Include` line and an option line of a text, with no `Host` or `Match` line in between. -/
structure SameBlock (env : ConfigEnv Path) (s : List Char) (pre : List (List Char))
    (inc : List Char) (mid : List (List Char)) (opt : List Char) : Prop where
  lines : ∃ post, ConfigEnv.lines s = pre ++ (inc :: mid ++ opt :: post)
  includes : HasKeyword env (· = "include".toList) inc
  noBlock : ∀ line ∈ mid, ¬HasKeyword env IsBlock line
  option : HasKeyword env (fun k => k ≠ "include".toList ∧ ¬IsBlock k) opt

/-- The last block, which the option goes to, is the one that was open at the `Include` line. -/
def ScopeKept (env : ConfigEnv Path) (depth : Nat) (s : List Char) : Prop :=
  ∀ pre inc mid opt, SameBlock env s pre inc mid opt →
    ∀ items included, flatMapM (env.readLine (env.parseImpl depth)) pre = .ok items →
      flatMapM (env.readLine (env.parseImpl depth)) (inc :: mid) = .ok included →
      ∀ config : ParsedConfigFile Path,
        ((items ++ included).foldl ParsedConfigFile.enter config).groups.length =
          (items.foldl ParsedConfigFile.enter config).groups.length

/-- What is included between an `Include` line and an option of the same block has no block. -/
def Undisturbed (env : ConfigEnv Path) (s : List Char) : Prop :=
  ∀ pre inc mid opt, SameBlock env s pre inc mid opt →
    ∀ line ∈ inc :: mid, ∀ data, IncludedBy env line data → ¬Opens env data

/-- The options of the blocks that match, in the order in which they are read. -/
def occurrences (holds : List Criteria → Context → Bool) :
    Bool → List (Item Path) → List (List Char × List Char)
  | _, [] => []
  | _, .block criteria context :: items => occurrences holds (holds criteria context) items
  | inBlock, .loaded _ :: items => occurrences holds inBlock items
  | inBlock, .option k v :: items =>
    if inBlock then (k, v) :: occurrences holds inBlock items else occurrences holds inBlock items

/-- The file that has been read. -/
def read (items : List (Item Path)) : ParsedConfigFile Path :=
  items.foldl ParsedConfigFile.enter ⟨fun _ => none, [], []⟩

/-- Does a block apply to the host? -/
def holdsFor (host user : List Char) (criteria : List Criteria) (context : Context) : Bool :=
  MatchGroup.isMatch ⟨criteria, context, fun _ => none⟩ host user user .firstPass

/-- An option has the value, expanded, of its first occurrence that matches: one that is set comes
before those of the files. -/
def FirstWins (options : ConfigMap) (files : List (List (Item Path))) (host user : List Char) :
    Prop :=
  ∀ expand defaults, ∀ k ≠ identityfile, ∀ v,
    (options k).or ((files.flatMap (occurrences (holdsFor host user) true)).lookup k) = some v →
      ∃ result, forHost options (files.map read) host user expand defaults k =
        some (expand result k v)

/-- The item is a block. -/
def Opening : Item Path → Bool
  | .block _ _ => true
  | _ => false

omit [DecidableEq Path] in
theorem length_groups (items : List (Item Path)) : ∀ config : ParsedConfigFile Path,
    (items.foldl ParsedConfigFile.enter config).groups.length =
      config.groups.length + items.countP Opening := by
  induction items with
  | nil => simp
  | cons item items ih =>
    intro config
    rw [List.foldl_cons, ih, List.countP_cons]
    cases item with
    | loaded path => simp [ParsedConfigFile.enter, Opening]
    | block criteria context =>
      simp [ParsedConfigFile.enter, Opening]
      omega
    | option k v =>
      rw [ParsedConfigFile.enter, ParsedConfigFile.addOption]
      cases hlast : config.groups.getLast? with
      | none => simp [Opening]
      | some group =>
        have hsome : config.groups ≠ [] := by
          intro hnil
          simp [hnil] at hlast
        have hpos := List.length_pos_of_ne_nil hsome
        simp [Opening]
        omega

theorem countP_flatMapM {α β ε : Type} {f : α → Except ε (List β)} {p : β → Bool} {l : List α} :
    ∀ {z}, flatMapM f l = .ok z →
      (z.countP p = 0 ↔ ∀ a ∈ l, ∀ x, f a = .ok x → x.countP p = 0) := by
  induction l with
  | nil =>
    intro z hz
    cases hz
    simp
  | cons a l ih =>
    intro z hz
    obtain ⟨x, y, hx, hy, rfl⟩ := flatMapM_cons_eq.mp hz
    rw [List.countP_append, Nat.add_eq_zero_iff, ih hy, List.forall_mem_cons]
    refine and_congr_left' ⟨fun h x' hx' => ?_, fun h => h x hx⟩
    cases hx.symm.trans hx'
    exact h

theorem readLine_opens {parse : List Char → Except Stop (List (Item Path))}
    (hparse : ∀ data items, parse data = .ok items → (items.countP Opening = 0 ↔ ¬Opens env data))
    {items : List (Item Path)} (h : env.readLine parse line = .ok items) :
    items.countP Opening = 0 ↔ ¬HasKeyword env IsBlock line ∧
      ∀ data, IncludedBy env line data → ¬Opens env data := by
  rw [ConfigEnv.readLine] at h
  cases hpair : readPair env.toLowercase line with
  | error e =>
    rw [hpair] at h
    cases h
  | ok pair =>
    rw [hpair] at h
    cases pair with
    | none =>
      cases h
      refine iff_of_true rfl ⟨?_, ?_⟩
      · rintro ⟨k, v, hread, -⟩
        simp [hpair] at hread
      · rintro data ⟨v, hread, -⟩
        simp [hpair] at hread
    | some pair =>
      obtain ⟨k, v⟩ := pair
      replace h : (if k = "include".toList then env.doInclude parse v else _) =
        Except.ok items := h
      have hkeyword : HasKeyword env IsBlock line ↔ IsBlock k := by
        simp [HasKeyword, hpair]
      have hincluded : k ≠ "include".toList → ∀ data, ¬IncludedBy env line data := by
        rintro hne data ⟨v', hread, -⟩
        exact hne (congrArg Prod.fst (Option.some.inj (Except.ok.inj (hpair.symm.trans hread))))
      rw [hkeyword]
      by_cases hinclude : k = "include".toList
      · rw [if_pos hinclude, ConfigEnv.doInclude] at h
        have hblock : ¬IsBlock k := hinclude ▸ include_not_block
        rw [countP_flatMapM h, and_iff_right hblock]
        constructor
        · rintro hall data ⟨v', hread, path, hpath, hdata⟩
          obtain rfl : v = v' :=
            congrArg Prod.snd (Option.some.inj (Except.ok.inj (hpair.symm.trans hread)))
          obtain ⟨x, hx⟩ := flatMapM_ok_iff.mp ⟨_, h⟩ path hpath
          have hzero := hall path hpath x hx
          simp only [hdata] at hx
          obtain ⟨y, hy, rfl⟩ := Machine.map_eq_ok.mp hx
          refine (hparse data y hy).mp ?_
          simpa [Opening] using hzero
        · intro hall path hpath x hx
          cases hdata : env.files.lookup path with
          | none =>
            simp only [hdata] at hx
            cases hx
            rfl
          | some data =>
            simp only [hdata] at hx
            obtain ⟨y, hy, rfl⟩ := Machine.map_eq_ok.mp hx
            have hclosed := hall data ⟨v, by rw [hpair, hinclude], path, hpath, hdata⟩
            simpa [Opening] using (hparse data y hy).mpr hclosed
      · rw [if_neg hinclude] at h
        rw [and_iff_left fun data hdata => absurd hdata (hincluded hinclude data)]
        by_cases hhost : k = "host".toList
        · rw [if_pos hhost] at h
          cases h
          exact iff_of_false (by simp [Opening]) fun hno => hno (.inl hhost)
        rw [if_neg hhost] at h
        by_cases hmatch : k = "match".toList
        · rw [if_pos hmatch] at h
          cases h
          exact iff_of_false (by simp [Opening]) fun hno => hno (.inr hmatch)
        · rw [if_neg hmatch] at h
          cases h
          exact iff_of_true (by simp [Opening]) fun hblock => hblock.elim hhost hmatch

theorem parseImpl_opens (depth : Nat) : ∀ s items, env.parseImpl depth s = .ok items →
    (items.countP Opening = 0 ↔ ¬Opens env s) := by
  induction depth with
  | zero =>
    intro s items h
    cases h
  | succ depth ih =>
    intro s items h
    rw [ConfigEnv.parseImpl] at h
    rw [countP_flatMapM h]
    constructor
    · intro hall hopens
      have hline : ∀ line ∈ ConfigEnv.lines s, ¬HasKeyword env IsBlock line ∧
          ∀ data, IncludedBy env line data → ¬Opens env data := by
        intro line hline
        obtain ⟨x, hx⟩ := flatMapM_ok_iff.mp ⟨_, h⟩ line hline
        exact (readLine_opens ih hx).mp (hall line hline x hx)
      cases hopens with
      | block hmem hblock => exact (hline _ hmem).1 hblock
      | included hdata hopens =>
        obtain ⟨line, hmem, hdata⟩ := hdata
        exact (hline line hmem).2 _ hdata hopens
    · intro hclosed line hline x hx
      refine (readLine_opens ih hx).mpr ⟨fun hblock => hclosed (.block hline hblock), ?_⟩
      exact fun data hdata hopens => hclosed (.included ⟨line, hline, hdata⟩ hopens)

theorem scopeKept_iff {depth : Nat} {all : List (Item Path)}
    (h : env.parseImpl (depth + 1) s = .ok all) : ScopeKept env depth s ↔ Undisturbed env s := by
  have hreads : ∀ pre inc mid opt, SameBlock env s pre inc mid opt →
      (∃ items, flatMapM (env.readLine (env.parseImpl depth)) pre = .ok items) ∧
        ∃ included, flatMapM (env.readLine (env.parseImpl depth)) (inc :: mid) = .ok included := by
    intro pre inc mid opt hsame
    obtain ⟨post, hlines⟩ := hsame.lines
    rw [ConfigEnv.parseImpl, hlines] at h
    obtain ⟨items, rest, hitems, hrest, -⟩ := flatMapM_append_eq.mp h
    obtain ⟨included, rest, hincluded, -, -⟩ := flatMapM_append_eq.mp hrest
    exact ⟨⟨items, hitems⟩, ⟨included, hincluded⟩⟩
  refine forall₄_congr fun pre inc mid opt => forall_congr' fun hsame => ?_
  have hno : ∀ line ∈ inc :: mid, ¬HasKeyword env IsBlock line := by
    refine List.forall_mem_cons.mpr ⟨?_, hsame.noBlock⟩
    rintro ⟨k, v, hread, hblock⟩
    obtain ⟨k', v', hread', rfl⟩ := hsame.includes
    obtain rfl := congrArg Prod.fst (Option.some.inj (Except.ok.inj (hread.symm.trans hread')))
    exact include_not_block hblock
  obtain ⟨⟨items, hitems⟩, ⟨included, hincluded⟩⟩ := hreads pre inc mid opt hsame
  have hcount : included.countP Opening = 0 ↔
      ∀ line ∈ inc :: mid, ∀ data, IncludedBy env line data → ¬Opens env data := by
    rw [countP_flatMapM hincluded]
    refine forall₂_congr fun line hline => ?_
    obtain ⟨x, hx⟩ := flatMapM_ok_iff.mp ⟨_, hincluded⟩ line hline
    have hopens := readLine_opens (parseImpl_opens depth) hx
    rw [and_iff_right (hno line hline)] at hopens
    rw [← hopens]
    constructor
    · exact fun hall => hall x hx
    · intro hzero x' hx'
      cases hx.symm.trans hx'
      exact hzero
  rw [← hcount]
  constructor
  · intro hkept
    have hlength := hkept items included hitems hincluded ⟨fun _ => none, [], []⟩
    rw [length_groups, length_groups, List.countP_append] at hlength
    omega
  · intro hzero items' included' hitems' hincluded' config
    cases hitems.symm.trans hitems'
    cases hincluded.symm.trans hincluded'
    rw [length_groups, length_groups, List.countP_append]
    omega

/-! ## The first occurrence -/

section Occurrences

variable {holds : List Criteria → Context → Bool} {items : List (Item Path)}
  {config : ParsedConfigFile Path} {host user : List Char} {target : ConfigMap} {k v : List Char}

/-- Is the last block one that applies? -/
def inLast (host user : List Char) (config : ParsedConfigFile Path) : Bool :=
  (config.groups.getLast?.map fun g => g.isMatch host user user .firstPass).getD true

/-- What an item adds to the occurrences. -/
def occurrence (inBlock : Bool) : Item Path → List (List Char × List Char)
  | .option k v => if inBlock then [(k, v)] else []
  | _ => []

theorem addOption_get (options : ConfigMap) (hk : k ≠ identityfile) (k' v' : List Char) :
    addOption options k' v' k = if k = k' then (options k).or (some v') else options k := by
  rw [addOption]
  by_cases heq : k = k'
  · subst heq
    rw [Function.update_self, if_pos rfl]
    cases options k with
    | none => rfl
    | some e =>
      show some (if k = identityfile then _ else _) = _
      rw [if_neg hk]
      rfl
  · rw [Function.update_of_ne heq, if_neg heq]

theorem lookup_one (k k' v : List Char) : [(k', v)].lookup k = if k = k' then some v else none := by
  by_cases h : k = k'
  · simp [h]
  · rw [if_neg h, List.lookup_cons, beq_eq_false_iff_ne.mpr h]
    rfl

omit [DecidableEq Path] in
/-- One more item: what is looked for is found as before, or else in what the item adds. -/
theorem applyMatches_enter (hk : k ≠ identityfile) (item : Item Path) :
    (config.enter item).applyMatches host user user .firstPass target k =
      (config.applyMatches host user user .firstPass target k).or
        ((occurrence (inLast host user config) item).lookup k) := by
  cases item with
  | loaded path => simp [ParsedConfigFile.enter, ParsedConfigFile.applyMatches, occurrence]
  | block criteria context =>
    simp only [ParsedConfigFile.enter, ParsedConfigFile.applyMatches, List.foldl_append,
      List.foldl_cons, List.foldl_nil, occurrence, List.lookup_nil, Option.or_none]
    split
    · simp [ConfigMap.fill]
    · rfl
  | option k' v' =>
    rw [ParsedConfigFile.enter, ParsedConfigFile.addOption, inLast]
    cases hlast : config.groups.getLast? with
    | none =>
      have hnil : config.groups = [] := List.getLast?_eq_none_iff.mp hlast
      simp only [ParsedConfigFile.applyMatches, hnil, List.foldl_nil, ConfigMap.fill,
        addOption_get _ hk, occurrence, Option.map_none, Option.getD_none, if_true, lookup_one]
      by_cases heq : k = k'
      · rw [if_pos heq, if_pos heq, Option.or_assoc]
      · rw [if_neg heq, if_neg heq, Option.or_none]
    | some group =>
      have hgroups : config.groups = config.groups.dropLast ++ [group] :=
        (List.dropLast_append_getLast? group hlast).symm
      have hsplit : ∀ g : MatchGroup,
          (config.groups.dropLast ++ [g]).foldl
            (fun target g => if g.isMatch host user user .firstPass then target.fill g.options
              else target) (target.fill config.options) k =
          if g.isMatch host user user .firstPass then
            ((config.groups.dropLast.foldl
              (fun target g => if g.isMatch host user user .firstPass then target.fill g.options
                else target) (target.fill config.options)) k).or (g.options k)
          else (config.groups.dropLast.foldl
            (fun target g => if g.isMatch host user user .firstPass then target.fill g.options
              else target) (target.fill config.options)) k := by
        intro g
        rw [List.foldl_append, List.foldl_cons, List.foldl_nil]
        split
        · rfl
        · rfl
      have hold := hsplit group
      rw [← hgroups] at hold
      unfold ParsedConfigFile.applyMatches
      rw [hsplit, hold]
      have hsame : MatchGroup.isMatch { group with options := addOption group.options k' v' }
          host user user .firstPass = group.isMatch host user user .firstPass := rfl
      rw [hsame, Option.map_some, Option.getD_some, occurrence]
      dsimp only
      rw [addOption_get _ hk]
      by_cases happlies : group.isMatch host user user .firstPass = true
      · rw [if_pos happlies, if_pos happlies, if_pos happlies, lookup_one]
        by_cases heq : k = k'
        · rw [if_pos heq, if_pos heq, Option.or_assoc]
        · rw [if_neg heq, if_neg heq, Option.or_none]
      · rw [if_neg happlies, if_neg happlies, if_neg happlies, List.lookup_nil, Option.or_none]

omit [DecidableEq Path] in
theorem inLast_enter (item : Item Path) :
    inLast host user (config.enter item) =
      match item with
      | .block criteria context => holdsFor host user criteria context
      | _ => inLast host user config := by
  cases item with
  | loaded path => rfl
  | block criteria context => simp [inLast, ParsedConfigFile.enter, holdsFor, MatchGroup.isMatch]
  | option k v =>
    rw [ParsedConfigFile.enter, ParsedConfigFile.addOption, inLast, inLast]
    cases hlast : config.groups.getLast? with
    | none => simp [hlast]
    | some group => simp [MatchGroup.isMatch]

omit [DecidableEq Path] in
/-- The induction is on the items, with what has been entered so far. -/
theorem applyMatches_foldl (hk : k ≠ identityfile) (items : List (Item Path)) :
    ∀ config : ParsedConfigFile Path,
    (items.foldl ParsedConfigFile.enter config).applyMatches host user user .firstPass target k =
      (config.applyMatches host user user .firstPass target k).or
        ((occurrences (holdsFor host user) (inLast host user config) items).lookup k) := by
  induction items with
  | nil => simp [occurrences]
  | cons item items ih =>
    intro config
    rw [List.foldl_cons, ih, applyMatches_enter hk, inLast_enter, Option.or_assoc]
    congr 1
    cases item with
    | loaded path => rfl
    | block criteria context => rfl
    | option k' v' =>
      rw [← List.lookup_append, occurrences, occurrence]
      split
      · rfl
      · rfl

omit [DecidableEq Path] in
theorem firstWins (options : ConfigMap) (files : List (List (Item Path))) (host user : List Char) :
    FirstWins options files host user := by
  have hfiles : ∀ k ≠ identityfile, ∀ files : List (List (Item Path)), ∀ target : ConfigMap,
      (files.map read).foldl
        (fun result config => config.applyMatches host user user .firstPass result) target k =
      (target k).or ((files.flatMap (occurrences (holdsFor host user) true)).lookup k) := by
    intro k hk files
    induction files with
    | nil => simp
    | cons items files ih =>
      intro target
      rw [List.map_cons, List.foldl_cons, ih, List.flatMap_cons, List.lookup_append, read,
        applyMatches_foldl hk, Option.or_assoc]
      simp [ParsedConfigFile.applyMatches, ConfigMap.fill, inLast]
  intro expand defaults k hk v hv
  refine ⟨(files.map read).foldl
    (fun result config => config.applyMatches host user user .firstPass result) options, ?_⟩
  unfold forHost ConfigMap.fill
  dsimp only
  rw [hfiles k hk files options, hv]
  rfl

end Occurrences

/-- **An option that follows an `Include` line stays in its block** if and only if no text that is
included between the two opens a block, whatever else it holds; and the first occurrence of an
option that matches is the one that counts. -/
theorem include_scope_iff (env : ConfigEnv Path) (depth : Nat) (s : List Char)
    (items : List (Item Path)) (h : env.parseImpl (depth + 1) s = .ok items) :
    (ScopeKept env depth s ∧ ∀ options before after host user,
      FirstWins options (before ++ items :: after) host user) ↔ Undisturbed env s := by
  rw [and_iff_left fun options before after host user => firstWins options _ host user]
  exact scopeKept_iff h

/-- The files of the examples: the path is the text of the one file that is there. -/
def fileOf (data : List Char) : ConfigEnv Unit := ⟨id, fun _ => [()], [((), data)]⟩

/-- `Include` of a file with one option. -/
theorem include_scope_option :
    (ScopeKept (fileOf ['p', ' ', '1']) 1 ("include f\nb 2".toList) ∧ ∀ options before after host user,
      FirstWins options (before ++ [.loaded (), .option ['p'] ['1'], .option ['b'] ['2']] :: after)
        host user) ↔ Undisturbed (fileOf ['p', ' ', '1']) ("include f\nb 2".toList) :=
  include_scope_iff _ 1 _ _ rfl

/-- An included file with a `host` line takes the option behind the `include` into its own block. -/
theorem included_block_takes_option :
    ¬∀ (env : ConfigEnv Unit) (depth : Nat) (s : List Char) (items : List (Item Unit)),
      env.parseImpl (depth + 1) s = .ok items → ScopeKept env depth s := by
  intro h
  have hkept := h (fileOf "host x".toList) 1 "include f\nb 2".toList _ rfl
    [] "include f".toList [] "b 2".toList
    { lines := ⟨[], rfl⟩
      includes := ⟨_, _, rfl, rfl⟩
      noBlock := by simp
      option := ⟨_, _, rfl, by decide, by unfold IsBlock; decide⟩ }
    [] _ rfl rfl ⟨fun _ => none, [], []⟩
  exact absurd hkept (by decide)

end Wakterm.Theorems.SshConfig
