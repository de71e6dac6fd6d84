import NgLog.Support.Backtracking

/-!
# What a failing parser leaves behind

`f <||> g` tries `g` on the machine that a failing `f` leaves. That is the alternative a grammar
means only if `f` has put the state back; a parser that has consumed a token before it fails hands
its successor a state in the middle of the abandoned reading.

`Restores` says that every failing run puts the state back, `RestoresAt` says it of one machine.
An `attempt` restores whatever its body does; a sequence restores if only its first part can fail,
or if its first part merely looks. The other sequences are the ones to be looked at one by one, and
for them there is an exact account: a loop up to a stop fails either because the stop came too
early, or because it breaks off, that is, an element fails after some have succeeded.

## Main definitions

* `Parser.RestoresAt`, `Parser.Restores` — a failing run leaves the state as it was
* `Parser.NeverFails`, `Parser.Observes` — no run fails; no run changes the state
* `Parser.Refuses`, `Parser.After` — `f` fails here; `f` succeeds here and then something holds
* `Parser.Declines` — `f` fails here and leaves no trace
* `Parser.Breaks` — a loop breaks off

## Main results

* `Parser.restores_attempt`, `restores_or`, `restores_and`, `restores_bind` — the rules
* `Frame.restoresAt_and_iff` — a token before a parser that may fail
* `Frame.repeatUntil_eq_false_iff` — when a loop up to a stop fails
-/

namespace NgLog

namespace Backtracking

variable {ε σ ω α β : Type}

namespace Parser

/-- If `f` fails at `m` then it leaves the state as it was. -/
def RestoresAt (f : Parser ε σ ω Bool) (m : Machine σ ω) : Prop :=
  ∀ m', f m = .ok (false, m') → m'.state = m.state

/-- Every failing run of `f` leaves the state as it was. -/
class Restores (f : Parser ε σ ω Bool) : Prop where
  restoresAt : ∀ m, RestoresAt f m

/-- No run of `f` fails. -/
class NeverFails (f : Parser ε σ ω Bool) : Prop where
  ne_false : ∀ m m', f m ≠ .ok (false, m')

/-- No run of `f` changes the state, whatever it returns. -/
class Observes (f : Parser ε σ ω α) : Prop where
  state_eq : ∀ m a m', f m = .ok (a, m') → m'.state = m.state

/-- `f` fails at `m`. -/
def Refuses (f : Parser ε σ ω Bool) (m : Machine σ ω) : Prop := ∃ m', f m = .ok (false, m')

/-- `f` fails at `m` and leaves the machine as it was. -/
def Declines (f : Parser ε σ ω Bool) (m : Machine σ ω) : Prop := f m = .ok (false, m)

/-- `f` succeeds at `m`, and `P` holds of the machine it leaves. -/
def After (f : Parser ε σ ω Bool) (P : Machine σ ω → Prop) (m : Machine σ ω) : Prop :=
  ∃ m', f m = .ok (true, m') ∧ P m'

variable {f g : Parser ε σ ω Bool}

/-! ### Sequencing -/

theorem bind_eq_ok {f : Parser ε σ ω α} {k : α → Parser ε σ ω β} {m m' : Machine σ ω} {b : β}
    (h : (f >>= k) m = .ok (b, m')) : ∃ a m₁, f m = .ok (a, m₁) ∧ k a m₁ = .ok (b, m') := by
  rw [bind_apply] at h
  rcases hf : f m with e | ⟨a, m₁⟩
  · rw [hf] at h
    cases h
  · rw [hf] at h
    exact ⟨a, m₁, rfl, h⟩

theorem and_eq_false_iff {m m' : Machine σ ω} :
    (f <&&> g) m = .ok (false, m') ↔
      f m = .ok (false, m') ∨ ∃ m₁, f m = .ok (true, m₁) ∧ g m₁ = .ok (false, m') := by
  rw [and_apply]
  rcases f m with e | ⟨_ | _, m₁⟩
  · simp
  · simp
  · simp

/-- A sequence of three does not depend on how it is bracketed. -/
theorem and_assoc (f g h : Parser ε σ ω Bool) : ((f <&&> g) <&&> h) = (f <&&> (g <&&> h)) := by
  funext m
  simp only [and_apply]
  rcases f m with e | ⟨_ | _, m₁⟩ <;> rfl

theorem refuses_and_iff {m : Machine σ ω} :
    Refuses (f <&&> g) m ↔ Refuses f m ∨ After f (Refuses g) m := by
  constructor
  · rintro ⟨m', h⟩
    rcases and_eq_false_iff.mp h with hf | ⟨m₁, hf, hg⟩
    · exact .inl ⟨m', hf⟩
    · exact .inr ⟨m₁, hf, m', hg⟩
  · rintro (⟨m', hf⟩ | ⟨m₁, hf, m', hg⟩)
    · exact ⟨m', and_eq_false_iff.mpr (.inl hf)⟩
    · exact ⟨m', and_eq_false_iff.mpr (.inr ⟨m₁, hf, hg⟩)⟩

theorem and_eq_true_iff {m m' : Machine σ ω} :
    (f <&&> g) m = .ok (true, m') ↔ ∃ m₁, f m = .ok (true, m₁) ∧ g m₁ = .ok (true, m') := by
  rw [and_apply]
  rcases f m with e | ⟨_ | _, m₁⟩
  · simp
  · simp
  · simp

theorem or_eq_true_iff {m m' : Machine σ ω} :
    (f <||> g) m = .ok (true, m') ↔
      f m = .ok (true, m') ∨ ∃ m₁, f m = .ok (false, m₁) ∧ g m₁ = .ok (true, m') := by
  rw [or_apply]
  rcases f m with e | ⟨_ | _, m₁⟩
  · simp
  · simp
  · simp

theorem attempt_eq_true_iff {m m' : Machine σ ω} :
    attempt f m = .ok (true, m') ↔ f m = .ok (true, m') := by
  rw [attempt]
  rcases f m with e | ⟨_ | _, m₁⟩
  · simp
  · simp
  · simp

/-! ### Declining -/

theorem Declines.and {m : Machine σ ω} (hf : Declines f m) : Declines (f <&&> g) m :=
  and_eq_false_iff.mpr (.inl hf)

/-- What comes after a test declines. -/
theorem Declines.test_and {m : Machine σ ω} {b : Bool} (hf : f m = .ok (b, m))
    (hg : Declines g m) : Declines (f <&&> g) m := by
  cases b with
  | false => exact .and hf
  | true => exact and_eq_false_iff.mpr (.inr ⟨m, hf, hg⟩)

theorem Declines.or_apply {m : Machine σ ω} (hf : Declines f m) : (f <||> g) m = g m := by
  rw [Parser.or_apply, hf]

theorem Declines.ne_true {m m' : Machine σ ω} (hf : Declines f m) : f m ≠ .ok (true, m') := by
  rw [Declines] at hf
  rw [hf]
  exact fun h => absurd (congrArg Prod.fst (Except.ok.inj h)) Bool.noConfusion

theorem Declines.of_or {m m' : Machine σ ω} (hf : Declines f m)
    (h : (f <||> g) m = .ok (true, m')) : g m = .ok (true, m') := hf.or_apply.symm.trans h

theorem Declines.or {m : Machine σ ω} (hf : Declines f m) (hg : Declines g m) :
    Declines (f <||> g) m := hf.or_apply.trans hg

theorem Declines.attempt {m : Machine σ ω} (hf : Declines f m) : Declines (attempt f) m := by
  rw [Declines, Parser.attempt, hf]

/-! ### Parsers that never fail, and parsers that only look -/

theorem neverFails_pure_true : NeverFails (pure true : Parser ε σ ω Bool) :=
  ⟨fun _ _ h => absurd (congrArg Prod.fst (Except.ok.inj h)) Bool.noConfusion⟩

theorem neverFails_bind {f : Parser ε σ ω α} {k : α → Parser ε σ ω Bool}
    (hk : ∀ a, NeverFails (k a)) : NeverFails (f >>= k) := by
  refine ⟨fun m m' h => ?_⟩
  obtain ⟨a, m₁, -, h'⟩ := bind_eq_ok h
  exact (hk a).ne_false m₁ m' h'

theorem neverFails_and (hf : NeverFails f) (hg : NeverFails g) : NeverFails (f <&&> g) := by
  refine ⟨fun m m' h => ?_⟩
  rcases and_eq_false_iff.mp h with h | ⟨m₁, -, h⟩
  · exact hf.ne_false m m' h
  · exact hg.ne_false m₁ m' h

theorem neverFails_saving {k : σ → Parser ε σ ω Bool} (hk : ∀ st, NeverFails (k st)) :
    NeverFails (saving k) := ⟨fun m => (hk m.state).ne_false m⟩

theorem neverFails_modify (g : σ → σ) : NeverFails (modify g : Parser ε σ ω Bool) :=
  ⟨fun _ _ h => absurd (congrArg Prod.fst (Except.ok.inj h)) Bool.noConfusion⟩

theorem neverFails_optional (f : Parser ε σ ω Bool) : NeverFails (optional f) := by
  refine ⟨fun m m' h => ?_⟩
  rw [optional] at h
  rcases hf : f m with e | ⟨b, m₁⟩
  · rw [hf] at h
    cases h
  · rw [hf] at h
    cases h

theorem observes_pure (a : α) : Observes (pure a : Parser ε σ ω α) :=
  ⟨fun _ _ _ h => by cases h; rfl⟩

theorem observes_bind {f : Parser ε σ ω α} {k : α → Parser ε σ ω β} (hf : Observes f)
    (hk : ∀ a, Observes (k a)) : Observes (f >>= k) := by
  refine ⟨fun m b m' h => ?_⟩
  obtain ⟨a, m₁, h₁, h₂⟩ := bind_eq_ok h
  exact ((hk a).state_eq m₁ b m' h₂).trans (hf.state_eq m a m₁ h₁)

theorem observes_saving {k : σ → Parser ε σ ω α} (hk : ∀ st, Observes (k st)) :
    Observes (fun m => k m.state m) := ⟨fun m => (hk m.state).state_eq m⟩

/-! ### Restoring -/

theorem NeverFails.restores (hf : NeverFails f) : Restores f :=
  ⟨fun m m' h => absurd h (hf.ne_false m m')⟩

theorem Observes.restores (hf : Observes f) : Restores f :=
  ⟨fun m m' h => hf.state_eq m false m' h⟩

theorem restores_error (e : ε) : Restores (fun _ => .error e : Parser ε σ ω Bool) :=
  ⟨fun _ _ h => by cases h⟩

/-- Saving the state and assigning it back restores it, whatever happens in between. -/
theorem restores_attempt (f : Parser ε σ ω Bool) : Restores (attempt f) := by
  refine ⟨fun m m' h => ?_⟩
  rw [attempt] at h
  rcases hf : f m with e | ⟨_ | _, m₁⟩
  · rw [hf] at h
    cases h
  · rw [hf] at h
    cases h
    rfl
  · rw [hf] at h
    cases h

theorem restores_or (hf : Restores f) (hg : Restores g) : Restores (f <||> g) := by
  refine ⟨fun m m' h => ?_⟩
  rw [or_apply] at h
  rcases hfm : f m with e | ⟨_ | _, m₁⟩
  · rw [hfm] at h
    cases h
  · rw [hfm] at h
    exact (hg.restoresAt m₁ m' h).trans (hf.restoresAt m m₁ hfm)
  · rw [hfm] at h
    cases h

/-- Only the first part can fail. -/
theorem restores_and (hf : Restores f) (hg : NeverFails g) : Restores (f <&&> g) := by
  refine ⟨fun m m' h => ?_⟩
  rcases and_eq_false_iff.mp h with h | ⟨m₁, -, h⟩
  · exact hf.restoresAt m m' h
  · exact absurd h (hg.ne_false m₁ m')

/-- The first part only looks at the state. -/
theorem restores_bind {f : Parser ε σ ω α} {k : α → Parser ε σ ω Bool} (hf : Observes f)
    (hk : ∀ a, Restores (k a)) : Restores (f >>= k) := by
  refine ⟨fun m m' h => ?_⟩
  obtain ⟨a, m₁, h₁, h₂⟩ := bind_eq_ok h
  exact ((hk a).restoresAt m₁ m' h₂).trans (hf.state_eq m a m₁ h₁)

theorem restores_observes_and (hf : Observes f) (hg : Restores g) : Restores (f <&&> g) := by
  refine ⟨fun m m' h => ?_⟩
  rcases and_eq_false_iff.mp h with h | ⟨m₁, h₁, h⟩
  · exact hf.state_eq m false m' h
  · exact (hg.restoresAt m₁ m' h).trans (hf.state_eq m true m₁ h₁)

theorem restores_saving {k : σ → Parser ε σ ω Bool} (hk : ∀ st, Restores (k st)) :
    Restores (saving k) := ⟨fun m => (hk m.state).restoresAt m⟩

/-! ### Loops up to a stop -/

/-- From `m` on, `f` succeeds some number of times without `stop` succeeding before a run of it,
and then it fails, and leaves `m'`. -/
inductive Breaks (stop f : Parser ε σ ω Bool) : Machine σ ω → Machine σ ω → Prop
  | now {m m₁ m'} (hstop : stop m = .ok (false, m₁)) (hf : f m₁ = .ok (false, m')) :
      Breaks stop f m m'
  | later {m m₁ m₂ m'} (hstop : stop m = .ok (false, m₁)) (hf : f m₁ = .ok (true, m₂))
      (hrest : Breaks stop f m₂ m') : Breaks stop f m m'

variable {stop : Parser ε σ ω Bool} {exhausted : ε} {least : Bool}

/-- A round of the loop. -/
theorem untilFuel_succ (fuel : ℕ) (parsed : Bool) {m m₁ : Machine σ ω}
    (hstop : stop m = .ok (false, m₁)) :
    untilFuel exhausted stop f least (fuel + 1) parsed m = match f m₁ with
      | .ok (true, m₂) => untilFuel exhausted stop f least fuel true m₂
      | .ok (false, m₂) => .ok (false, m₂)
      | .error e => .error e := by
  rw [untilFuel, bind_apply, hstop]
  dsimp only
  rw [if_neg Bool.false_ne_true, bind_apply]
  rcases f m₁ with e | ⟨_ | _, m₂⟩ <;> rfl

/-- The end of the loop. -/
theorem untilFuel_stop (fuel : ℕ) (parsed : Bool) {m m₁ : Machine σ ω}
    (hstop : stop m = .ok (true, m₁)) :
    untilFuel exhausted stop f least (fuel + 1) parsed m = .ok (parsed || !least, m₁) := by
  rw [untilFuel, bind_apply, hstop]
  rfl

/-- A loop that fails breaks off, or the stop came before the round that was required. -/
theorem untilFuel_eq_false :
    ∀ {fuel : ℕ} {parsed : Bool} {m m' : Machine σ ω},
      untilFuel exhausted stop f least fuel parsed m = .ok (false, m') →
        Breaks stop f m m' ∨ (parsed || !least) = false ∧ stop m = .ok (true, m')
  | 0, _, _, _, h => by cases h
  | fuel + 1, parsed, m, m', h => by
    rcases hstop : stop m with e | ⟨_ | _, m₁⟩
    · rw [untilFuel, bind_apply, hstop] at h
      cases h
    · rw [untilFuel_succ fuel parsed hstop] at h
      rcases hf : f m₁ with e | ⟨_ | _, m₂⟩
      · rw [hf] at h
        cases h
      · rw [hf] at h
        cases h
        exact .inl (.now hstop hf)
      · rw [hf] at h
        rcases untilFuel_eq_false h with hbreaks | ⟨hparsed, -⟩
        · exact .inl (.later hstop hf hbreaks)
        · cases hparsed
    · rw [untilFuel_stop fuel parsed hstop, Except.ok.injEq, Prod.mk.injEq] at h
      exact .inr ⟨h.1, h.2 ▸ rfl⟩

/-- A loop that succeeds ends where the stop has succeeded. -/
theorem untilFuel_eq_true :
    ∀ {fuel : ℕ} {parsed : Bool} {m m' : Machine σ ω},
      untilFuel exhausted stop f least fuel parsed m = .ok (true, m') →
        ∃ m₁, stop m₁ = .ok (true, m')
  | 0, _, _, _, h => by cases h
  | fuel + 1, parsed, m, m', h => by
    rcases hstop : stop m with e | ⟨_ | _, m₁⟩
    · rw [untilFuel, bind_apply, hstop] at h
      cases h
    · rw [untilFuel_succ fuel parsed hstop] at h
      rcases hf : f m₁ with e | ⟨_ | _, m₂⟩
      · rw [hf] at h
        cases h
      · rw [hf] at h
        cases h
      · rw [hf] at h
        exact untilFuel_eq_true h
    · rw [untilFuel_stop fuel parsed hstop, Except.ok.injEq, Prod.mk.injEq] at h
      exact ⟨m, h.2 ▸ hstop⟩

end Parser

namespace Frame

open Backtracking.Parser

variable {fr : Frame ε σ ω} {s : Bool} {f g stop : Parser ε σ ω Bool} {m m' : Machine σ ω}

/-- The frame relates the machines before and after a run. -/
theorem Runs.post (hf : fr.Runs s f) (hm : fr.inv m) {b : Bool} (h : f m = .ok (b, m')) :
    fr.Post s m b m' := by
  have hpost := hf m hm
  rw [h] at hpost
  exact hpost

/-- A parser after one that makes progress: when the second one fails, the progress of the first
one is left. So the pair restores the state exactly where the second one does not fail. -/
theorem restoresAt_and_iff (hf : fr.Runs true f) (hrestores : Restores f) (hg : fr.Runs false g)
    (hprogress : ∀ {m m'}, fr.progress m m' → m'.state ≠ m.state) (hm : fr.inv m) :
    RestoresAt (f <&&> g) m ↔ ¬After f (Refuses g) m := by
  constructor
  · rintro h ⟨m₁, hfm, m', hgm⟩
    have hfirst := hf.post hm hfm
    have hsecond := hg.post (fr.inv_of_rel hm hfirst.1) hgm
    refine hprogress (fr.progress_of_rel (hfirst.2 rfl rfl) hsecond.1) ?_
    exact h m' (and_eq_false_iff.mpr (.inr ⟨m₁, hfm, hgm⟩))
  · intro h m' hrun
    rcases and_eq_false_iff.mp hrun with hfm | ⟨m₁, hfm, hgm⟩
    · exact hrestores.restoresAt m m' hfm
    · exact absurd ⟨m₁, hfm, m', hgm⟩ h

section Loops

variable {exhausted : ε} {measure : Machine σ ω → ℕ} {least : Bool}

theorem rel_of_breaks (hstop : fr.Runs false stop) (hf : fr.Runs true f)
    (h : Breaks stop f m m') (hm : fr.inv m) : fr.rel m m' := by
  induction h with
  | now h₁ h₂ =>
    have hpost₁ := hstop.post hm h₁
    exact fr.rel_trans hpost₁.1 (hf.post (fr.inv_of_rel hm hpost₁.1) h₂).1
  | later h₁ h₂ hrest ih =>
    have hpost₁ := hstop.post hm h₁
    have hm₁ := fr.inv_of_rel hm hpost₁.1
    have hpost₂ := hf.post hm₁ h₂
    exact fr.rel_trans (fr.rel_trans hpost₁.1 hpost₂.1) (ih (fr.inv_of_rel hm₁ hpost₂.1))

/-- A loop that breaks off fails: the measure leaves it enough fuel to get there. -/
theorem untilFuel_of_breaks (hstop : fr.Runs false stop) (hf : fr.Runs true f)
    (hmono : ∀ m m', fr.inv m → fr.rel m m' → measure m' ≤ measure m)
    (hmeasure : ∀ m m', fr.inv m → fr.rel m m' → fr.progress m m' → measure m' < measure m)
    (h : Breaks stop f m m') :
    ∀ (fuel : ℕ) (parsed : Bool), fr.inv m → measure m < fuel →
      untilFuel exhausted stop f least fuel parsed m = .ok (false, m') := by
  induction h with
  | now h₁ h₂ =>
    intro fuel parsed hm hfuel
    obtain ⟨fuel, rfl⟩ := Nat.exists_eq_add_one_of_ne_zero (Nat.ne_zero_of_lt hfuel)
    rw [untilFuel_succ fuel parsed h₁, h₂]
  | @later m m₁ m₂ m' h₁ h₂ hrest ih =>
    intro fuel parsed hm hfuel
    obtain ⟨fuel, rfl⟩ := Nat.exists_eq_add_one_of_ne_zero (Nat.ne_zero_of_lt hfuel)
    have hpost₁ := hstop.post hm h₁
    have hm₁ := fr.inv_of_rel hm hpost₁.1
    have hpost₂ := hf.post hm₁ h₂
    have hle := hmono m m₁ hm hpost₁.1
    have hlt := hmeasure m₁ m₂ hm₁ hpost₂.1 (hpost₂.2 rfl rfl)
    rw [untilFuel_succ fuel parsed h₁, h₂]
    exact ih fuel true (fr.inv_of_rel hm₁ hpost₂.1) (by omega)

/-- When a loop up to a stop fails. -/
theorem repeatUntil_eq_false_iff (hstop : fr.Runs false stop) (hf : fr.Runs true f)
    (hmono : ∀ m m', fr.inv m → fr.rel m m' → measure m' ≤ measure m)
    (hmeasure : ∀ m m', fr.inv m → fr.rel m m' → fr.progress m m' → measure m' < measure m)
    (hm : fr.inv m) :
    repeatUntil exhausted measure stop least f m = .ok (false, m') ↔
      Breaks stop f m m' ∨ least = true ∧ stop m = .ok (true, m') := by
  constructor
  · intro h
    rcases untilFuel_eq_false h with hbreaks | ⟨hleast, hstopped⟩
    · exact .inl hbreaks
    · exact .inr ⟨by simpa using hleast, hstopped⟩
  · rintro (hbreaks | ⟨rfl, hstopped⟩)
    · exact untilFuel_of_breaks hstop hf hmono hmeasure hbreaks _ false hm (Nat.lt_succ_self _)
    · exact untilFuel_stop _ false hstopped

end Loops

end Frame

end Backtracking

end NgLog
