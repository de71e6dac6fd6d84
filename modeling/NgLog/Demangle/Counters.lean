import NgLog.Demangle.Safety
import NgLog.Demangle.Stranding

/-!
# The counters of the demangler

A guard increments a counter of the state and decrements it at the end of its function. In between,
the function may put back a copy of the state, and the counters with it. The copy has been taken
while the guard was there already, so it has the counter as the guard has left it.

`Visits` follows a run into the parts of a function: its machines are those between two parts, at
the entry of a part and behind a guard. The primitives have none in between, since none of them
knows of a counter.

## Main definitions

* `Visits` — the machines of a run
* `Within` — the counters are not below those at the entry, and within their limits

## Main results

* `Visits.within` — they are so throughout a run
* `counters_kept` — every parse function gives back the counters it has found
-/

namespace NgLog

namespace Demangle

open Backtracking (Machine Frame)

variable {w : CString}

/-! ### The machines of a run -/

/-- Parsing `f` from `m` comes by `m'`. The fuel counts nested depth guards, as that of `Built`
does. -/
inductive Visits : ℕ → Parser w Bool → Machine State Store → Machine State Store → Prop
  | start {n f m} : Visits n f m m
  | finish {n s f m b m'} (hf : Built n s f) (hrun : f m = .ok (b, m')) : Visits n f m m'
  | and_left {n f g m m'} (h : Visits n f m m') : Visits n (f <&&> g) m m'
  | and_right {n s f g m m₁ m'} (hf : Built n s f) (hrun : f m = .ok (true, m₁))
      (h : Visits n g m₁ m') : Visits n (f <&&> g) m m'
  | or_left {n f g m m'} (h : Visits n f m m') : Visits n (f <||> g) m m'
  | or_right {n s f g m m₁ m'} (hf : Built n s f) (hrun : f m = .ok (false, m₁))
      (h : Visits n g m₁ m') : Visits n (f <||> g) m m'
  | attempt {n f m m'} (h : Visits n f m m') : Visits n (attempt f) m m'
  | twice_cond {n c f g m m'} (h : Visits n c m m') : Visits n (attemptTwice c f g) m m'
  | twice_first {n s c f g m m₁ m'} (hc : Built n s c) (hrun : c m = .ok (true, m₁))
      (h : Visits n f m₁ m') : Visits n (attemptTwice c f g) m m'
  /-- The second try, from the copy. -/
  | twice_second {n s t c f g m m₁ m₂ m'} (hc : Built n s c) (hrun : c m = .ok (true, m₁))
      (hf : Built n t f) (hfirst : f m₁ = .ok (false, m₂)) (h : Visits n g ⟨m.state, m₂.store⟩ m') :
      Visits n (attemptTwice c f g) m m'
  | branch_cond {n c f g m m'} (h : Visits n c m m') : Visits n (branch c f g) m m'
  | branch_yes {n s c f g m m₁ m'} (hc : Built n s c) (hrun : c m = .ok (true, m₁))
      (h : Visits n f m₁ m') : Visits n (branch c f g) m m'
  | branch_no {n s c f g m m₁ m'} (hc : Built n s c) (hrun : c m = .ok (false, m₁))
      (h : Visits n g m₁ m') : Visits n (branch c f g) m m'
  | optional {n f m m'} (h : Visits n f m m') : Visits n (optional f) m m'
  | round {n f m m'} (h : Visits n f m m') : Visits n (zeroOrMore f) m m'
  | next_round {n f m m₁ m'} (hf : Built n true f) (hrun : f m = .ok (true, m₁))
      (h : Visits n (zeroOrMore f) m₁ m') : Visits n (zeroOrMore f) m m'
  | element {n stops least f m m'} (h : Visits n f m m') : Visits n (parseUntil stops least f) m m'
  | next_element {n stops least f m m₁ m'} (hf : Built n true f) (hrun : f m = .ok (true, m₁))
      (h : Visits n (parseUntil stops least f) m₁ m') : Visits n (parseUntil stops least f) m m'
  | saving {n k m m'} (h : Visits n (k m.state) m m') : Visits n (saving k) m m'
  | scanned {n α} {f : Parser w α} {post k m a m₁ m'} (hf : Scans f post) (hrun : f m = .ok (a, m₁))
      (h : Visits n (k a) m₁ m') : Visits n (f >>= k) m m'
  | separated {n f m m'} (h : Visits n (maybeAppendSeparator <&&> f) m m') :
      Visits n (separated f) m m'
  | level {n level f m m₁ m'} (hlevel : level ≠ .depth)
      (henter : enterLevel (w := w) level m = .ok (true, m₁)) (h : Visits n f m₁ m') :
      Visits n (guardLevel level f) m m'
  /-- The depth is limited before the step is counted. -/
  | depth {n f m m₁} (henter : enterLevel (w := w) .depth m = .ok (true, m₁)) :
      Visits (n + 1) (guardDepth f) m m₁
  | step {n f m m₁ m₂ m'} (henter : enterLevel (w := w) .depth m = .ok (true, m₁))
      (hcount : countStep (w := w) m₁ = .ok (true, m₂)) (h : Visits n f m₂ m') :
      Visits (n + 1) (guardDepth f) m m'

/-- From `m` on, the counters have not fallen and are within their limits, and the budget has not
grown. -/
structure Within (w : CString) (m m' : Machine State Store) : Prop where
  safe : Safe w m'
  le_level (level : Level) : m.state.level level ≤ m'.state.level level
  level_le (level : Level) : m'.state.level level ≤ maxLevel level
  steps_le : m'.store.stepsRemaining ≤ m.store.stepsRemaining

variable {n : ℕ} {s : Bool} {f : Parser w Bool} {m m₁ m₂ m' : Machine State Store}

theorem Within.of_advances (hm : (safety w n).inv m) (h : Advances w m m') : Within w m m' := by
  refine ⟨h.safe, fun level => Nat.le_of_eq (h.levels level).symm, fun level => ?_, h.steps⟩
  rw [h.levels]
  exact hm.2.1 level

/-- Behind a part that gives the counters back. -/
theorem Within.after (h : Advances w m m₁) (h' : Within w m₁ m') : Within w m m' := by
  refine ⟨h'.safe, fun level => ?_, h'.level_le, Nat.le_trans h'.steps_le h.steps⟩
  rw [← h.levels]
  exact h'.le_level level

/-- What is known of a part that has returned. -/
theorem advances_of_run (hf : Built n s f) (hm : (safety w n).inv m) {b : Bool}
    (hrun : f m = .ok (b, m')) : Advances w m m' := by
  have h := hf.runs_safety m hm
  rw [hrun] at h
  exact h.1

/-- A level has been entered. -/
theorem within_entered {level : Level} (hm : (safety w n).inv m)
    (henter : enterLevel (w := w) level m = .ok (true, m₁)) :
    m₁ = entered m level ∧ m.state.level level < maxLevel level ∧ Within w m m₁ := by
  rw [enterLevel] at henter
  split at henter
  · next hlt =>
    cases henter
    refine ⟨rfl, hlt, ⟨?_, outputOk_setLevel.mpr hm.1.output⟩, fun other => ?_, fun other => ?_,
      Nat.le_refl _⟩
    · rw [mangledCur_setLevel]
      exact hm.1.cursor_le
    · rw [level_setLevel]
      split
      · next heq => rw [heq]; exact Nat.le_succ _
      · exact Nat.le_refl _
    · rw [level_setLevel]
      split
      · next heq => rw [heq]; exact hlt
      · exact hm.2.1 other
  · cases henter

theorem Within.trans (h : Within w m m₁) (h' : Within w m₁ m') : Within w m m' :=
  ⟨h'.safe, fun level => Nat.le_trans (h.le_level level) (h'.le_level level), h'.level_le,
    Nat.le_trans h'.steps_le h.steps_le⟩

/-- **The counters throughout a run.** By induction on the way to the machine: the parts before it
have given the counters back, and the guards around it have entered their levels. -/
theorem Visits.within (h : Visits n f m m') (hm : (safety w n).inv m) : Within w m m' := by
  induction h with
  | start => exact .of_advances hm (.refl hm.1)
  | finish hf hrun => exact .of_advances hm (advances_of_run hf hm hrun)
  | and_left _ ih | or_left _ ih | attempt _ ih | twice_cond _ ih | branch_cond _ ih | optional _ ih
  | round _ ih | element _ ih | saving _ ih | separated _ ih => exact ih hm
  | and_right hf hrun _ ih | or_right hf hrun _ ih | twice_first hf hrun _ ih
  | branch_yes hf hrun _ ih | branch_no hf hrun _ ih | next_round hf hrun _ ih
  | next_element hf hrun _ ih =>
    have hpart := advances_of_run hf hm hrun
    exact (ih ((safety w _).inv_of_rel hm hpart)).after hpart
  | twice_second hc hrun hf hfirst _ ih =>
    have hcond := advances_of_run hc hm hrun
    have hpart := advances_of_run hf ((safety w _).inv_of_rel hm hcond) hfirst
    -- the copy has the counters of the entry
    have hcopy := (safety w _).rel_restore hm (hcond.trans hpart)
    exact (ih ((safety w _).inv_of_rel hm hcopy)).after hcopy
  | scanned hf hrun _ ih =>
    obtain ⟨a, i, hscan, hi, -⟩ := hf _ hm.1.cursor_le
    rw [hrun] at hscan
    cases hscan
    have hpart := advances_moved hm.1 hi
    exact (ih ((safety w _).inv_of_rel hm hpart)).after hpart
  | level hlevel henter _ ih =>
    obtain ⟨rfl, hlt, hentered⟩ := within_entered hm henter
    exact hentered.trans (ih ⟨hentered.safe, bounded_setLevel hlevel _ hm.2 hlt⟩)
  | depth henter => exact (within_entered hm henter).2.2
  | step henter hcount _ ih =>
    obtain ⟨rfl, hlt, hentered⟩ := within_entered hm henter
    have hinv : (safety w _).inv (entered _ .depth) := ⟨hentered.safe, bounded_setDepth _ hm.2 hlt⟩
    have hcounted := runs_countStep _ hinv
    rw [hcount] at hcounted
    have hpart := hcounted.1
    exact hentered.trans ((ih ((safety w _).inv_of_rel hinv hpart)).after hpart)

/-! ### The parse functions -/

/-- Every parse function is built, with the depth guard of its own or without one. -/
theorem built_runFunction [Forward w] [ForwardBuilt n w] (f : ParseFunction) :
    Built n false (runFunction f : Parser w Bool) ∨ Built (n + 1) false
    (runFunction f : Parser w Bool) := by
  cases f with
  | parseEncoding => exact Or.inr (inferInstanceAs (Built (n + 1) false parseEncoding))
  | parseName => exact Or.inr (inferInstanceAs (Built (n + 1) false parseName))
  | parseNestedName => exact Or.inr (inferInstanceAs (Built (n + 1) false parseNestedName))
  | parsePrefix => exact Or.inr (inferInstanceAs (Built (n + 1) false parsePrefix))
  | parseType => exact Or.inr (inferInstanceAs (Built (n + 1) false parseType))
  | parseTemplateArg => exact Or.inr (inferInstanceAs (Built (n + 1) false parseTemplateArg))
  | parseBracedExpression =>
    exact Or.inr (inferInstanceAs (Built (n + 1) false parseBracedExpression))
  | parseExpression => exact Or.inr (inferInstanceAs (Built (n + 1) false parseExpression))
  | parseLocalName => exact Or.inr (inferInstanceAs (Built (n + 1) false parseLocalName))
  | parseIdentifier length => exact Or.inl (.identifier nofun)
  | parseNonNegativeNumber numberOut =>
    exact Or.inl (accepts_succeeds (yields_parseNonNegativeNumber numberOut)).built
  | parsePositiveNumber numberOut =>
    have hscan := (scans_parsePositiveNumber (w := w) numberOut).mono fun _ _ h => h.1
    exact Or.inl (accepts_succeeds hscan).built
  | parseTopLevelMangledName => exact Or.inl built_parseTopLevelMangledName
  | _ =>
    refine Or.inl ?_
    dsimp only [runFunction]
    infer_instance

/-- The entry of a run at which there is fuel for the guards that are left. -/
theorem counters_of_built (hf : Built n s f) (hm : (safety w n).inv m) :
    ∃ b m', f m = .ok (b, m') ∧ (∀ level, m'.state.level level = m.state.level level) ∧
      m'.store.stepsRemaining ≤ m.store.stepsRemaining := by
  have h := hf.runs_safety m hm
  rcases hrun : f m with e | ⟨b, m'⟩ <;> rw [hrun] at h
  · exact h.elim
  · exact ⟨b, m', rfl, h.1.levels, h.1.steps⟩

/-- **Every parse function gives back the counters it has found**, whatever it returns. No counter
is decremented below zero, and throughout the run none is below its value at the entry or above its
maximum, and the budget has not grown. -/
theorem counters_kept (w : CString) (f : ParseFunction) (m : Machine State Store) (hm : Safe w m)
    (hlevels : ∀ level, m.state.level level ≤ maxLevel level) :
    letI := forwardAt w parseFuel
    (∃ b m', (runFunction f : Parser w Bool) m = .ok (b, m') ∧
      (∀ level, m'.state.level level = m.state.level level) ∧
      m'.store.stepsRemaining ≤ m.store.stepsRemaining) ∧
    ∀ n m', parseFuel ≤ n → Visits n (runFunction f : Parser w Bool) m m' → Within w m m' := by
  let _ := forwardAt w parseFuel
  have _ := forwardBuilt_forwardAt w parseFuel
  have hinv (n : ℕ) (hn : parseFuel ≤ n) : (safety w n).inv m := by
    refine ⟨hm, hlevels, ?_⟩
    have hfuel : maxLevel .depth < parseFuel := Nat.lt_succ_self _
    omega
  constructor
  · have hbuilt : Built parseFuel false (runFunction f : Parser w Bool) ∨
        Built (parseFuel + 1) false (runFunction f : Parser w Bool) := built_runFunction f
    rcases hbuilt with hf | hf
    · exact counters_of_built hf (hinv _ (Nat.le_refl _))
    · exact counters_of_built hf (hinv _ (Nat.le_succ _))
  · intro n m' hn hvisits
    exact hvisits.within (hinv n hn)

theorem counters_kept_start :
    (Safe (.ofString "_Z") (initMachine [0]) ∧
      ∀ level, (initMachine [0]).state.level level ≤ maxLevel level) ∧
    (∃ b m', @runFunction (.ofString "_Z") (forwardAt _ parseFuel) .parseMangledName
      (initMachine [0]) =
        .ok (b, m') ∧
      (∀ level, m'.state.level level = (initMachine [0]).state.level level) ∧
      m'.store.stepsRemaining ≤ (initMachine [0]).store.stepsRemaining) ∧
    ∀ n m', parseFuel ≤ n →
      Visits n (@runFunction (.ofString "_Z") (forwardAt _ parseFuel) .parseMangledName)
        (initMachine [0]) m' →
      Within (.ofString "_Z") (initMachine [0]) m' := by
  have hinit : (safety (.ofString "_Z") parseFuel).inv (initMachine [0]) :=
    safe_initMachine (by decide)
  exact ⟨⟨hinit.1, hinit.2.1⟩, counters_kept _ _ _ hinit.1 hinit.2.1⟩

end Demangle

end NgLog
