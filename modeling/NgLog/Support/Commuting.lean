import NgLog.Support.Backtracking

/-!
# Parsers that do not see a part of the store

A parser that writes to a buffer need not depend on what was there before. `Commutes φ f` says so
for a map `φ` of stores that changes what is not to be seen: it makes no difference whether it is
changed before a run of `f` or after it.

## Main definitions

* `Machine.mapStore` — the machine with another store
* `Parser.Commutes`

## Main results

* `Parser.commutes_bind`, `commutes_attempt`, `commutes_zeroOrMore`, … — the rules
-/

namespace NgLog

namespace Backtracking

variable {ε σ ω α β : Type}

/-- The machine with another store. -/
def Machine.mapStore (φ : ω → ω) (m : Machine σ ω) : Machine σ ω := ⟨m.state, φ m.store⟩

@[simp] theorem Machine.mapStore_state (φ : ω → ω) (m : Machine σ ω) :
    (m.mapStore φ).state = m.state := rfl

@[simp] theorem Machine.mapStore_store (φ : ω → ω) (m : Machine σ ω) :
    (m.mapStore φ).store = φ m.store := rfl

namespace Parser

/-- The result with another store. -/
def mapResult (φ : ω → ω) :
    Except ε (α × Machine σ ω) → Except ε (α × Machine σ ω)
  | .ok (a, m) => .ok (a, m.mapStore φ)
  | .error e => .error e

/-- What `φ` changes does not concern `f`. -/
class Commutes (φ : ω → ω) (f : Parser ε σ ω α) : Prop where
  run_mapStore : ∀ m, f (m.mapStore φ) = mapResult φ (f m)

variable {φ : ω → ω} {f g : Parser ε σ ω Bool}

/-! ### The rules -/

theorem commutes_pure (a : α) : Commutes φ (pure a : Parser ε σ ω α) := ⟨fun _ => rfl⟩

theorem commutes_bind {f : Parser ε σ ω α} {k : α → Parser ε σ ω β} (hf : Commutes φ f)
    (hk : ∀ a, Commutes φ (k a)) : Commutes φ (f >>= k) := by
  refine ⟨fun m => ?_⟩
  rw [bind_apply, bind_apply, hf.run_mapStore]
  rcases f m with e | ⟨a, m'⟩
  · rfl
  · exact (hk a).run_mapStore m'

theorem commutes_saving {k : σ → Parser ε σ ω α} (hk : ∀ s, Commutes φ (k s)) :
    Commutes φ (saving k) := ⟨fun m => (hk m.state).run_mapStore m⟩

theorem commutes_modify (c : σ → σ) : Commutes φ (modify c : Parser ε σ ω Bool) := ⟨fun _ => rfl⟩

theorem commutes_ite {f g : Parser ε σ ω α} {p : Prop} [Decidable p] (hf : Commutes φ f)
    (hg : Commutes φ g) : Commutes φ (if p then f else g) := by
  split
  · exact hf
  · exact hg

/-- A test of the machine that does not see what is changed. -/
theorem commutes_test {p : Machine σ ω → Prop} [DecidablePred p] {f g : Parser ε σ ω α}
    (hp : ∀ m, p (m.mapStore φ) ↔ p m) (hf : Commutes φ f) (hg : Commutes φ g) :
    Commutes φ (fun m => if p m then f m else g m : Parser ε σ ω α) := by
  refine ⟨fun m => ?_⟩
  by_cases h : p m
  · rw [if_pos h, if_pos ((hp m).mpr h)]
    exact hf.run_mapStore m
  · rw [if_neg h, if_neg (mt (hp m).mp h)]
    exact hg.run_mapStore m

theorem commutes_and (hf : Commutes φ f) (hg : Commutes φ g) : Commutes φ (f <&&> g) := by
  refine ⟨fun m => ?_⟩
  rw [and_apply, and_apply, hf.run_mapStore]
  rcases f m with e | ⟨_ | _, m'⟩
  · rfl
  · rfl
  · exact hg.run_mapStore m'

theorem commutes_or (hf : Commutes φ f) (hg : Commutes φ g) : Commutes φ (f <||> g) := by
  refine ⟨fun m => ?_⟩
  rw [or_apply, or_apply, hf.run_mapStore]
  rcases f m with e | ⟨_ | _, m'⟩
  · rfl
  · exact hg.run_mapStore m'
  · rfl

theorem commutes_attempt (hf : Commutes φ f) : Commutes φ (attempt f) := by
  refine ⟨fun m => ?_⟩
  rw [attempt, attempt, hf.run_mapStore]
  rcases f m with e | ⟨_ | _, m'⟩ <;> rfl

theorem commutes_branch {c : Parser ε σ ω Bool} (hc : Commutes φ c) (hf : Commutes φ f)
    (hg : Commutes φ g) : Commutes φ (branch c f g) :=
  commutes_bind hc fun _ => commutes_ite hf hg

theorem commutes_attemptTwice {c : Parser ε σ ω Bool} (hc : Commutes φ c) (hf : Commutes φ f)
    (hg : Commutes φ g) : Commutes φ (attemptTwice c f g) :=
  commutes_attempt (commutes_saving fun copy => commutes_branch hc
    (commutes_or hf (commutes_and (commutes_modify fun _ => copy) hg)) (commutes_pure false))

theorem commutes_optional (hf : Commutes φ f) : Commutes φ (optional f) := by
  refine ⟨fun m => ?_⟩
  rw [optional, optional, hf.run_mapStore]
  rcases f m with e | ⟨_, m'⟩ <;> rfl

theorem commutes_repeatFuel {exhausted : ε} (hf : Commutes φ f) :
    ∀ fuel, Commutes φ (repeatFuel exhausted f fuel) := by
  intro fuel
  induction fuel with
  | zero => exact ⟨fun _ => rfl⟩
  | succ fuel ih =>
    refine ⟨fun m => ?_⟩
    rw [repeatFuel, repeatFuel, hf.run_mapStore]
    rcases f m with e | ⟨_ | _, m'⟩
    · rfl
    · rfl
    · exact ih.run_mapStore m'

/-- The measure must not see it either. -/
theorem commutes_zeroOrMore {exhausted : ε} {measure : Machine σ ω → ℕ} (hf : Commutes φ f)
    (hmeasure : ∀ m, measure (m.mapStore φ) = measure m) :
    Commutes φ (zeroOrMore exhausted measure f) := by
  refine ⟨fun m => ?_⟩
  rw [zeroOrMore, zeroOrMore, hmeasure]
  exact (commutes_repeatFuel hf _).run_mapStore m

theorem commutes_untilFuel {exhausted : ε} {stop : Parser ε σ ω Bool} {least : Bool}
    (hstop : Commutes φ stop) (hf : Commutes φ f) :
    ∀ fuel parsed, Commutes φ (untilFuel exhausted stop f least fuel parsed) := by
  intro fuel
  induction fuel with
  | zero => exact fun _ => ⟨fun _ => rfl⟩
  | succ fuel ih =>
    exact fun parsed => commutes_bind hstop fun _ => commutes_ite (commutes_pure _)
      (commutes_bind hf fun _ => commutes_ite (ih true) (commutes_pure _))

theorem commutes_repeatUntil {exhausted : ε} {measure : Machine σ ω → ℕ}
    {stop : Parser ε σ ω Bool} {least : Bool} (hstop : Commutes φ stop) (hf : Commutes φ f)
    (hmeasure : ∀ m, measure (m.mapStore φ) = measure m) :
    Commutes φ (repeatUntil exhausted measure stop least f) := by
  refine ⟨fun m => ?_⟩
  rw [repeatUntil, repeatUntil, hmeasure]
  exact (commutes_untilFuel hstop hf _ false).run_mapStore m

end Parser

end Backtracking

end NgLog
