import Mathlib.Data.Nat.Notation
import Mathlib.Tactic.Common

/-!
# Backtracking parsers over a saved state and a shared store

A recursive-descent parser that saves its state, tries an alternative and puts the saved state
back has two kinds of data: the *state* proper, which the saved copy restores, and the *store*
(an output buffer, a work budget), which survives the failure. `Machine σ ω` keeps the two apart,
and a `Parser` is a fallible function on machines: `Except.error` marks an execution that the
source language leaves undefined, never an ordinary failure to parse, which is the result `false`.

The control structure of such parsers is small: short-circuit `&&` and `||` (Lean's `<&&>` and
`<||>`), "save, try, restore" (`attempt`), repetition (`zeroOrMore`, `oneOrMore`) and reading the
current state (`saving`). Repetition takes its fuel from a measure of the machine; running out of
fuel is an error like the others, so that termination is a theorem and not an assumption.

## The triple

`Frame` bundles an invariant of machines with a transitive relation between the machines before
and after, closed under restoring the saved state. `Frame.Runs fr strict f` says that `f`, started
in the invariant, returns a machine related to the first one, and that a strict `f` which succeeds
has made progress. Errors that the frame allows are let through: a frame that allows none states
total correctness, one that allows all states partial correctness. The rules below are one per
combinator.

## Main definitions

* `Machine`, `Parser`, `attempt`, `saving`, `zeroOrMore`, `oneOrMore`
* `Frame`, `Frame.Runs` — the invariant, the step relation and the triple

## Main results

* `Frame.runs_and`, `runs_or`, `runs_attempt`, `runs_zeroOrMore`, `runs_bind` — the rules
-/

namespace NgLog

namespace Backtracking

/-- What a backtracking parser works on. -/
structure Machine (σ ω : Type) where
  /-- Saved by every alternative and restored when the alternative fails. -/
  state : σ
  /-- Shared by all alternatives; a failed one leaves its traces here. -/
  store : ω

/-- A computation on machines; an error is undefined behaviour, not a failure to parse. -/
def Parser (ε σ ω α : Type) : Type := Machine σ ω → Except ε (α × Machine σ ω)

variable {ε σ ω α β : Type}

namespace Parser

/-- Return a value and leave the machine alone. -/
protected def pure (a : α) : Parser ε σ ω α := fun m => .ok (a, m)

/-- Run `f`, then continue with its result on the machine it leaves. -/
protected def bind (f : Parser ε σ ω α) (k : α → Parser ε σ ω β) : Parser ε σ ω β := fun m =>
  match f m with
  | .ok (a, m') => k a m'
  | .error e => .error e

instance : Monad (Parser ε σ ω) where
  pure := Parser.pure
  bind := Parser.bind

theorem bind_apply (f : Parser ε σ ω α) (k : α → Parser ε σ ω β) (m : Machine σ ω) :
    (f >>= k) m = match f m with
      | .ok (a, m') => k a m'
      | .error e => .error e := rfl

/-- Continue with the current state. -/
def saving (k : σ → Parser ε σ ω α) : Parser ε σ ω α := fun m => k m.state m

/-- Update the state; always succeeds. -/
def modify (g : σ → σ) : Parser ε σ ω Bool := fun m => .ok (true, { m with state := g m.state })

/-- Save the state, try `f`, and restore the state unless `f` succeeds. -/
def attempt (f : Parser ε σ ω Bool) : Parser ε σ ω Bool := fun m =>
  match f m with
  | .ok (true, m') => .ok (true, m')
  | .ok (false, m') => .ok (false, { m' with state := m.state })
  | .error e => .error e

/-- Continue with `f` or with `g`, as `cond` succeeds or fails. -/
def branch (cond f g : Parser ε σ ω Bool) : Parser ε σ ω Bool := do
  if ← cond then f else g

/-- Save the state; if `cond` succeeds try `f` after it, and otherwise `g` from the saved state;
restore the state unless one of them succeeds. -/
def attemptTwice (cond f g : Parser ε σ ω Bool) : Parser ε σ ω Bool :=
  attempt (saving fun copy => branch cond (f <||> (modify (fun _ => copy) <&&> g)) (pure false))

/-- Run `f` and succeed whatever it returns. -/
def optional (f : Parser ε σ ω Bool) : Parser ε σ ω Bool := fun m =>
  match f m with
  | .ok (_, m') => .ok (true, m')
  | .error e => .error e

/-- Run `f` until it fails, at most `fuel` times. -/
def repeatFuel (exhausted : ε) (f : Parser ε σ ω Bool) : ℕ → Parser ε σ ω Bool
  | 0, _ => .error exhausted
  | fuel + 1, m =>
    match f m with
    | .ok (true, m') => repeatFuel exhausted f fuel m'
    | .ok (false, m') => .ok (true, m')
    | .error e => .error e

/-- Run `f` until it fails, and succeed. The measure of the machine bounds the repetitions. -/
def zeroOrMore (exhausted : ε) (measure : Machine σ ω → ℕ) (f : Parser ε σ ω Bool) :
    Parser ε σ ω Bool := fun m => repeatFuel exhausted f (measure m + 1) m

/-- Run `f` until `stop` succeeds; a failing `f` ends the loop with failure. At the stop the result
is whether enough was parsed: `least` says that one round is required. -/
def untilFuel (exhausted : ε) (stop f : Parser ε σ ω Bool) (least : Bool) :
    ℕ → Bool → Parser ε σ ω Bool
  | 0, _ => fun _ => .error exhausted
  | fuel + 1, parsed => do
    if ← stop then
      return parsed || !least
    if ← f then
      untilFuel exhausted stop f least fuel true
    else
      return false

/-- Run `f` until `stop` succeeds. The measure of the machine bounds the repetitions. -/
def repeatUntil (exhausted : ε) (measure : Machine σ ω → ℕ) (stop : Parser ε σ ω Bool)
    (least : Bool) (f : Parser ε σ ω Bool) : Parser ε σ ω Bool := fun m =>
  untilFuel exhausted stop f least (measure m + 1) false m

theorem and_apply (f g : Parser ε σ ω Bool) (m : Machine σ ω) :
    (f <&&> g) m = match f m with
      | .ok (true, m') => g m'
      | .ok (false, m') => .ok (false, m')
      | .error e => .error e := by
  simp only [andM, bind_apply]
  rcases f m with e | ⟨b, m'⟩
  · rfl
  · cases b <;> rfl

theorem or_apply (f g : Parser ε σ ω Bool) (m : Machine σ ω) :
    (f <||> g) m = match f m with
      | .ok (true, m') => .ok (true, m')
      | .ok (false, m') => g m'
      | .error e => .error e := by
  simp only [orM, bind_apply]
  rcases f m with e | ⟨b, m'⟩
  · rfl
  · cases b <;> rfl

end Parser

/-! ### Triples -/

/-- `Q` holds of the result, and an error is one that `E` allows. -/
def Outcome (E : ε → Prop) (Q : α → Machine σ ω → Prop) :
    Except ε (α × Machine σ ω) → Prop
  | .ok (a, m) => Q a m
  | .error e => E e

theorem Outcome.mono {E : ε → Prop} {Q Q' : α → Machine σ ω → Prop} (h : ∀ a m, Q a m → Q' a m) :
    ∀ {r : Except ε (α × Machine σ ω)}, Outcome E Q r → Outcome E Q' r
  | .ok (a, m), hr => h a m hr
  | .error _, hr => hr

/-- Sequencing on outcomes. -/
theorem Outcome.bind {E : ε → Prop} {Q : α → Machine σ ω → Prop} {Q' : β → Machine σ ω → Prop}
    {f : Parser ε σ ω α} {k : α → Parser ε σ ω β} {m : Machine σ ω} (hf : Outcome E Q (f m))
    (hk : ∀ a m', Q a m' → Outcome E Q' (k a m')) : Outcome E Q' ((f >>= k) m) := by
  rw [Parser.bind_apply]
  rcases hfm : f m with e | ⟨a, m'⟩
  · rw [hfm] at hf
    exact hf
  · rw [hfm] at hf
    exact hk a m' hf

/-- An invariant of machines with a relation between the machine before and after a step. -/
structure Frame (ε σ ω : Type) where
  /-- The errors the triple lets through. -/
  allowed : ε → Prop
  /-- Holds before and after every step. -/
  inv : Machine σ ω → Prop
  /-- Relates the machine before a step to the one after it. -/
  rel : Machine σ ω → Machine σ ω → Prop
  /-- What a successful strict step achieves besides. -/
  progress : Machine σ ω → Machine σ ω → Prop
  rel_refl : ∀ {m}, inv m → rel m m
  rel_trans : ∀ {m₁ m₂ m₃}, rel m₁ m₂ → rel m₂ m₃ → rel m₁ m₃
  inv_of_rel : ∀ {m m'}, inv m → rel m m' → inv m'
  /-- Restoring the state that was current at `m` keeps the relation. -/
  rel_restore : ∀ {m m'}, inv m → rel m m' → rel m { m' with state := m.state }
  progress_of_rel : ∀ {m₁ m₂ m₃}, progress m₁ m₂ → rel m₂ m₃ → progress m₁ m₃
  rel_progress : ∀ {m₁ m₂ m₃}, rel m₁ m₂ → progress m₂ m₃ → progress m₁ m₃

namespace Frame

variable (fr : Frame ε σ ω)

/-- What the triple promises of one run from `m`. -/
def Post (strict : Bool) (m : Machine σ ω) (b : Bool) (m' : Machine σ ω) : Prop :=
  fr.rel m m' ∧ (strict = true → b = true → fr.progress m m')

/-- The triple: `f` keeps the frame, and makes progress when it is strict and succeeds. -/
def Runs (strict : Bool) (f : Parser ε σ ω Bool) : Prop :=
  ∀ m, fr.inv m → Outcome fr.allowed (fr.Post strict m) (f m)

variable {fr} {s t : Bool} {f g : Parser ε σ ω Bool}

theorem Runs.weaken (h : fr.Runs s f) : fr.Runs false f := fun m hm =>
  (h m hm).mono fun _ _ hpost => ⟨hpost.1, fun hs => absurd hs Bool.false_ne_true⟩

theorem runs_pure_false : fr.Runs s (pure false) := fun _ hm =>
  ⟨fr.rel_refl hm, fun _ hb => absurd hb Bool.false_ne_true⟩

theorem runs_pure_true : fr.Runs false (pure true) := fun _ hm =>
  ⟨fr.rel_refl hm, fun hs => absurd hs Bool.false_ne_true⟩

/-- Continuing from a machine that the frame relates to the first one. -/
theorem Runs.after (hg : fr.Runs t g) {m m' : Machine σ ω} (hm : fr.inv m) (hrel : fr.rel m m') :
    Outcome fr.allowed (fr.Post t m) (g m') :=
  (hg m' (fr.inv_of_rel hm hrel)).mono fun _ _ hpost =>
    ⟨fr.rel_trans hrel hpost.1, fun ht hb => fr.rel_progress hrel (hpost.2 ht hb)⟩

/-- Sequencing: the pair is strict when either part is. -/
theorem runs_and (hf : fr.Runs s f) (hg : fr.Runs t g) : fr.Runs (s || t) (f <&&> g) := by
  intro m hm
  have hfm := hf m hm
  rw [Parser.and_apply]
  rcases hr : f m with e | ⟨b, m'⟩ <;> rw [hr] at hfm
  · exact hfm
  · obtain ⟨hrel, hprog⟩ := hfm
    cases b with
    | false => exact ⟨hrel, fun _ hb => absurd hb Bool.false_ne_true⟩
    | true =>
      refine (hg m' (fr.inv_of_rel hm hrel)).mono fun b₂ m₂ hpost =>
        ⟨fr.rel_trans hrel hpost.1, fun hst hb => ?_⟩
      rcases (Bool.or_eq_true s t).mp hst with hs | ht
      · exact fr.progress_of_rel (hprog hs rfl) hpost.1
      · exact fr.rel_progress hrel (hpost.2 ht hb)

/-- Alternatives: both have to be strict. -/
theorem runs_or (hf : fr.Runs s f) (hg : fr.Runs s g) : fr.Runs s (f <||> g) := by
  intro m hm
  have hfm := hf m hm
  rw [Parser.or_apply]
  rcases hr : f m with e | ⟨b, m'⟩ <;> rw [hr] at hfm
  · exact hfm
  · cases b with
    | true => exact hfm
    | false => exact hg.after hm hfm.1

theorem runs_attempt (hf : fr.Runs s f) : fr.Runs s (Parser.attempt f) := by
  intro m hm
  have hfm := hf m hm
  rw [Parser.attempt]
  rcases hr : f m with e | ⟨b, m'⟩ <;> rw [hr] at hfm
  · exact hfm
  · cases b with
    | true => exact hfm
    | false => exact ⟨fr.rel_restore hm hfm.1, fun _ hb => absurd hb Bool.false_ne_true⟩

theorem runs_optional (hf : fr.Runs s f) : fr.Runs false (Parser.optional f) := by
  intro m hm
  have hfm := hf m hm
  rw [Parser.optional]
  rcases hr : f m with e | ⟨b, m'⟩ <;> rw [hr] at hfm
  · exact hfm
  · exact ⟨hfm.1, fun hs => absurd hs Bool.false_ne_true⟩

theorem runs_branch {c : Parser ε σ ω Bool} (hc : fr.Runs t c) (hf : fr.Runs s f)
    (hg : fr.Runs s g) : fr.Runs s (Parser.branch c f g) := fun m hm =>
  Outcome.bind (hc m hm) fun b m' hpost => by
    cases b with
    | true => exact hf.after hm hpost.1
    | false => exact hg.after hm hpost.1

/-- The second try starts from the saved state, so `cond` has to be strict with the first try only
through the second. -/
theorem runs_attemptTwice {c : Parser ε σ ω Bool} (hc : fr.Runs s c) (hf : fr.Runs false f)
    (hg : fr.Runs s g) : fr.Runs s (Parser.attemptTwice c f g) := by
  refine runs_attempt fun m hm => ?_
  refine Outcome.bind (hc m hm) fun b m₁ h₁ => ?_
  cases b with
  | false => exact ⟨h₁.1, fun _ hb => absurd hb Bool.false_ne_true⟩
  | true =>
    have hfm := hf m₁ (fr.inv_of_rel hm h₁.1)
    rw [if_pos rfl, Parser.or_apply]
    rcases hr : f m₁ with e | ⟨b₂, m₂⟩ <;> rw [hr] at hfm
    · exact hfm
    · have hrel := fr.rel_trans h₁.1 hfm.1
      cases b₂ with
      | true => exact ⟨hrel, fun hs _ => fr.progress_of_rel (h₁.2 hs rfl) hfm.1⟩
      | false => exact hg.after hm (fr.rel_restore hm hrel)

theorem runs_saving {k : σ → Parser ε σ ω Bool} (hk : ∀ st, fr.Runs s (k st)) :
    fr.Runs s (Parser.saving k) := fun m hm => hk m.state m hm

/-- Repetition by fuel. Each round but the last is progress, so a measure that progress
decreases and that starts below the fuel is never exhausted; a frame that allows exhaustion
needs no measure. -/
theorem outcome_repeatFuel {exhausted : ε} {measure : Machine σ ω → ℕ} (hf : fr.Runs true f)
    (hmeasure : fr.allowed exhausted ∨
      ∀ m m', fr.inv m → fr.rel m m' → fr.progress m m' → measure m' < measure m) :
    ∀ (fuel : ℕ) (m : Machine σ ω), fr.inv m → (fr.allowed exhausted ∨ measure m < fuel) →
      Outcome fr.allowed (fr.Post false m) (Parser.repeatFuel exhausted f fuel m)
  | 0, m, _, hfuel => hfuel.resolve_right (Nat.not_lt_zero _)
  | fuel + 1, m, hm, hfuel => by
    have hfm := hf m hm
    rw [Parser.repeatFuel]
    rcases hr : f m with e | ⟨b, m'⟩ <;> rw [hr] at hfm
    · exact hfm
    · cases b with
      | false => exact ⟨hfm.1, fun hs => absurd hs Bool.false_ne_true⟩
      | true =>
        obtain ⟨hrel, hprog⟩ := hfm
        have hfuel' : fr.allowed exhausted ∨ measure m' < fuel := by
          rcases hmeasure with ha | hdec
          · exact .inl ha
          · refine hfuel.imp_right fun hlt => ?_
            have := hdec m m' hm hrel (hprog rfl rfl)
            omega
        exact (outcome_repeatFuel hf hmeasure fuel m' (fr.inv_of_rel hm hrel) hfuel').mono
          fun _ _ hpost => ⟨fr.rel_trans hrel hpost.1, fun hs => absurd hs Bool.false_ne_true⟩

theorem runs_zeroOrMore {exhausted : ε} {measure : Machine σ ω → ℕ} (hf : fr.Runs true f)
    (hmeasure : fr.allowed exhausted ∨
      ∀ m m', fr.inv m → fr.rel m m' → fr.progress m m' → measure m' < measure m) :
    fr.Runs false (Parser.zeroOrMore exhausted measure f) := fun m hm =>
  outcome_repeatFuel hf hmeasure (measure m + 1) m hm (.inr (Nat.lt_succ_self _))

/-- The same for a loop with a stop test: only the rounds of `f` have to make progress. -/
theorem outcome_untilFuel {exhausted : ε} {measure : Machine σ ω → ℕ} {least : Bool}
    (hstop : fr.Runs false g) (hf : fr.Runs true f)
    (hmono : fr.allowed exhausted ∨ ∀ m m', fr.inv m → fr.rel m m' → measure m' ≤ measure m)
    (hmeasure : fr.allowed exhausted ∨
      ∀ m m', fr.inv m → fr.rel m m' → fr.progress m m' → measure m' < measure m) :
    ∀ (fuel : ℕ) (parsed : Bool) (m : Machine σ ω), fr.inv m →
      (fr.allowed exhausted ∨ measure m < fuel) →
      Outcome fr.allowed (fr.Post false m) (Parser.untilFuel exhausted g f least fuel parsed m)
  | 0, _, m, _, hfuel => hfuel.resolve_right (Nat.not_lt_zero _)
  | fuel + 1, parsed, m, hm, hfuel => by
    rw [Parser.untilFuel]
    refine Outcome.bind (hstop m hm) fun stopped m₁ h₁ => ?_
    have hm₁ := fr.inv_of_rel hm h₁.1
    cases stopped with
    | true => exact ⟨h₁.1, fun hs => absurd hs Bool.false_ne_true⟩
    | false =>
      refine Outcome.bind (hf m₁ hm₁) fun b m₂ h₂ => ?_
      have hrel := fr.rel_trans h₁.1 h₂.1
      cases b with
      | false => exact ⟨hrel, fun hs => absurd hs Bool.false_ne_true⟩
      | true =>
        have hfuel' : fr.allowed exhausted ∨ measure m₂ < fuel := by
          rcases hmeasure with ha | hdec
          · exact .inl ha
          · rcases hmono with ha | hle
            · exact .inl ha
            · refine hfuel.imp_right fun hlt => ?_
              have := hle m m₁ hm h₁.1
              have := hdec m₁ m₂ hm₁ h₂.1 (h₂.2 rfl rfl)
              omega
        exact (outcome_untilFuel hstop hf hmono hmeasure fuel true m₂ (fr.inv_of_rel hm hrel)
          hfuel').mono fun _ _ hpost =>
            ⟨fr.rel_trans hrel hpost.1, fun hs => absurd hs Bool.false_ne_true⟩

theorem runs_repeatUntil {exhausted : ε} {measure : Machine σ ω → ℕ} {least : Bool}
    (hstop : fr.Runs false g) (hf : fr.Runs true f)
    (hmono : fr.allowed exhausted ∨ ∀ m m', fr.inv m → fr.rel m m' → measure m' ≤ measure m)
    (hmeasure : fr.allowed exhausted ∨
      ∀ m m', fr.inv m → fr.rel m m' → fr.progress m m' → measure m' < measure m) :
    fr.Runs false (Parser.repeatUntil exhausted measure g least f) := fun m hm =>
  outcome_untilFuel hstop hf hmono hmeasure (measure m + 1) false m hm
    (.inr (Nat.lt_succ_self _))

end Frame

end Backtracking

end NgLog
